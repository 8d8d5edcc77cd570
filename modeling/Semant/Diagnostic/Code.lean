/-!
# Severities and codes

Every diagnostic has a severity and a code. Codes are stable: a tool may rely on them while the
wording of a message changes.
-/

set_option autoImplicit false

namespace Semant

/-- Errors keep a program from being compiled, warnings do not. -/
inductive Severity where
  | error
  | warning
  deriving DecidableEq, Repr, Inhabited

def Severity.text : Severity → String
  | error => "error"
  | warning => "warning"

inductive Code where
  | duplicateSymbol
  | undefinedSymbol
  | wrongSymbolClass
  | incompatibleAssignment
  | invalidOperand
  | invalidCast
  | nothingValue
  | invalidReturn
  | arityMismatch
  | signatureMismatch
  | lossyConversion
  | alwaysTrue
  deriving DecidableEq, Repr, Inhabited

def Code.text : Code → String
  | duplicateSymbol => "duplicate_symbol"
  | undefinedSymbol => "undefined_symbol"
  | wrongSymbolClass => "wrong_symbol_class"
  | incompatibleAssignment => "incompatible_assignment"
  | invalidOperand => "invalid_operand"
  | invalidCast => "invalid_cast"
  | nothingValue => "nothing_value"
  | invalidReturn => "invalid_return"
  | arityMismatch => "arity_mismatch"
  | signatureMismatch => "signature_mismatch"
  | lossyConversion => "lossy_conversion"
  | alwaysTrue => "always_true"

end Semant
