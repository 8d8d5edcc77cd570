import Semant.Rules
import Semant.Signature
import Semant.Token

/-!
# Diagnostics

Mistakes in a program are findings about a place in it. They are collected in the order in which
they are found and never stop the analysis. Each finding knows its code and its wording; whether it
is an error or a warning is decided by whoever reports it.
-/

set_option autoImplicit false

namespace Semant

inductive SymbolClass where
  | data
  | function
  deriving DecidableEq, Repr, Inhabited

def SymbolClass.text : SymbolClass → String
  | data => "data"
  | function => "function"

inductive SemanticError where
  /-- The name is taken already, by a symbol of the given class defined at the given place. -/
  | duplicateSymbol (name : String) (cls : SymbolClass) (position : Position)
  | undefinedSymbol (name : String)
  | notAFunction (name : String)
  | assignToFunction (name : String)
  | functionAsValue (name : String)
  | nothingData (name : String)
  | unexpectedReturnValue (name : String)
  | missingReturnValue (name : String) (returns : Ty)
  deriving DecidableEq, Repr

namespace SemanticError

def code : SemanticError → Code
  | duplicateSymbol .. => .duplicateSymbol
  | undefinedSymbol _ => .undefinedSymbol
  | notAFunction _ | assignToFunction _ | functionAsValue _ => .wrongSymbolClass
  | nothingData _ => .nothingValue
  | unexpectedReturnValue _ | missingReturnValue .. => .invalidReturn

def message : SemanticError → String
  | duplicateSymbol name cls position =>
    "symbol \"" ++ name ++ "\" already defined as a " ++ cls.text ++ " at " ++ position.text
  | undefinedSymbol name => "symbol \"" ++ name ++ "\" not defined"
  | notAFunction name => "symbol \"" ++ name ++ "\" is not a function"
  | assignToFunction name => "cannot assign to a function name \"" ++ name ++ "\""
  | functionAsValue name => "function \"" ++ name ++ "\" cannot be used as a value"
  | nothingData name => "cannot declare \"" ++ name ++ "\" as nothing"
  | unexpectedReturnValue name =>
    "function \"" ++ name ++ "\" returns nothing but a value is returned"
  | missingReturnValue name returns =>
    "function \"" ++ name ++ "\" must return " ++ returns.noun

end SemanticError

/-- Whatever can be reported about a program. The rules for types and calls have errors of their own
(`Semant.Rules`, `Semant.Signature`) and do not know of diagnostics. -/
inductive Finding where
  | semantic (error : SemanticError)
  | typing (error : TypeError)
  | conversion (warning : TypeWarning)
  | call (error : CallError)
  deriving DecidableEq, Repr

namespace Finding

def code : Finding → Code
  | semantic e => e.code
  | typing e => e.code
  | conversion w => w.code
  | call e => e.code

def message : Finding → String
  | semantic e => e.message
  | typing e => e.message
  | conversion w => w.message
  | call e => e.message

end Finding

structure Diagnostic where
  severity : Severity
  position : Position
  finding : Finding
  deriving DecidableEq, Repr

namespace Diagnostic

def code (d : Diagnostic) : Code := d.finding.code

def message (d : Diagnostic) : String := d.finding.message

def text (d : Diagnostic) : String :=
  d.position.text ++ " " ++ d.severity.text ++ ": " ++ d.message

end Diagnostic

abbrev Diagnostics := List Diagnostic

namespace Diagnostics

def ofSeverity (ds : Diagnostics) (severity : Severity) : Diagnostics :=
  ds.filter fun d => d.severity = severity

/-- The number of errors in the list. A pass does not ask for it: it counts while it reports
(`Pass.counted`). -/
def errorCount (ds : Diagnostics) : Nat := (ds.ofSeverity .error).length

def warningCount (ds : Diagnostics) : Nat := (ds.ofSeverity .warning).length

end Diagnostics

end Semant
