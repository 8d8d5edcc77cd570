import Semant.Diagnostic.Code
import Semant.Operator

/-!
# The type rules

When a value may be stored, which operands an operator takes and which conversions may be asked
for. Each rule is a function of the types alone. A rule that accepts gives the resulting type and
possibly one warning about what the conversion does to the value; a rule that rejects gives the
reason.

Storing is the strictest: it never turns a number into a string or a boolean into a number.
Converting on request (`cast`) allows both directions for strings, but a struct stays what it is
except that it may be asked for its truth.
-/

set_option autoImplicit false

namespace Semant

inductive TypeError where
  | incompatibleAssignment (target value : Ty)
  /-- An operand is the result of a function that returns nothing. -/
  | noReturnValue
  | stringArithmetic (op : BinaryOp)
  | incompatibleOperands (op : BinaryOp) (lhs rhs : Ty)
  | invalidNegation (operand : Ty)
  | invalidNot (operand : Ty)
  | invalidCast (target source : Ty)
  | castToNothing
  deriving DecidableEq, Repr

namespace TypeError

/-- The code of the diagnostic. Storing `nothing` counts as the misuse of a missing value, not as
an incompatibility. -/
def code : TypeError → Code
  | incompatibleAssignment _ .nothing => .nothingValue
  | incompatibleAssignment .. => .incompatibleAssignment
  | noReturnValue => .nothingValue
  | stringArithmetic _ | incompatibleOperands .. | invalidNegation _ | invalidNot _ =>
    .invalidOperand
  | invalidCast .. | castToNothing => .invalidCast

def message : TypeError → String
  | incompatibleAssignment target value =>
    "cannot assign " ++ value.noun ++ " to " ++ target.noun
  | noReturnValue => "function has no return value"
  | stringArithmetic op => "arithmetic operation `" ++ op.text ++ "` not allowed on a string"
  | incompatibleOperands _ lhs rhs =>
    "arithmetic operation not allowed: " ++ lhs.name ++ " and " ++ rhs.name ++ " are incompatible"
  | invalidNegation operand => "unary minus does not make sense with " ++ operand.noun
  | invalidNot operand => "unary not does not make sense with " ++ operand.noun
  | invalidCast target source =>
    "cast " ++ source.name ++ " to " ++ target.name ++ " is not allowed"
  | castToNothing => "cast to nothing is not allowed"

end TypeError

inductive TypeWarning where
  | assignmentLosesResolution (target value : Ty)
  | assignmentAlwaysTrue (value : Ty)
  | booleanOperation (operand : Ty)
  | castLosesResolution (target source : Ty)
  | castAlwaysTrue (source : Ty)
  deriving DecidableEq, Repr

namespace TypeWarning

def code : TypeWarning → Code
  | assignmentLosesResolution .. | castLosesResolution .. => .lossyConversion
  | assignmentAlwaysTrue _ | booleanOperation _ | castAlwaysTrue _ => .alwaysTrue

def message : TypeWarning → String
  | assignmentLosesResolution target value =>
    "assigning " ++ value.noun ++ " to " ++ target.noun ++ " loses resolution"
  | assignmentAlwaysTrue value => "assigning " ++ value.noun ++ " to a boolean is always true"
  | booleanOperation operand => "boolean operation on " ++ operand.name ++ " is always true"
  | castLosesResolution target source =>
    "casting " ++ source.name ++ " to " ++ target.name ++ " loses resolution"
  | castAlwaysTrue source => "casting " ++ source.name ++ " to boolean is always true"

end TypeWarning

structure Checked where
  type : Ty
  warning : Option TypeWarning := none
  deriving DecidableEq, Repr

namespace Rules

/-- Storing a value of type `value` where a `target` is wanted. The result has the target's
type. -/
def assignment (target value : Ty) : Except TypeError Checked :=
  match target, value with
  | _, .nothing | .nothing, _ => .error (.incompatibleAssignment target value)
  | .int, .int | .float, .int | .float, .float | .string, .string | .bool, .bool =>
    .ok { type := target }
  | .int, .float | .bool, .int =>
    .ok { type := target, warning := some (.assignmentLosesResolution target value) }
  | .bool, .float | .bool, .string =>
    .ok { type := target, warning := some (.assignmentAlwaysTrue value) }
  | .struct a, .struct b =>
    if a = b then .ok { type := target } else .error (.incompatibleAssignment target value)
  | _, _ => .error (.incompatibleAssignment target value)

/-- Arithmetic on integers, floats and booleans: a float makes the result a float, and a boolean
among numbers makes it a boolean. -/
def promote (op : BinaryOp) (lhs rhs : Ty) : Except TypeError Checked :=
  match lhs, rhs with
  | .bool, .bool => .ok { type := .bool }
  | .bool, .int | .int, .bool => .ok { type := .bool, warning := some (.booleanOperation .int) }
  | .bool, .float | .float, .bool =>
    .ok { type := .bool, warning := some (.booleanOperation .float) }
  | .int, .int => .ok { type := .int }
  | .float, .int | .int, .float | .float, .float => .ok { type := .float }
  | _, _ => .error (.incompatibleOperands op lhs rhs)

/-- A binary operator on two operands. A missing value is never an operand; comparisons and
connectives take anything else, and so does the power, which is always a float. -/
def binary (op : BinaryOp) (lhs rhs : Ty) : Except TypeError Checked :=
  if lhs = .nothing ∨ rhs = .nothing then .error .noReturnValue
  else if op.isBoolean then .ok { type := .bool }
  else if op = .pow then .ok { type := .float }
  else if lhs.isStruct ∨ rhs.isStruct then .error (.incompatibleOperands op lhs rhs)
  else if lhs = .string ∨ rhs = .string then
    if op = .add then .ok { type := .string } else .error (.stringArithmetic op)
  else promote op lhs rhs

def unary (op : UnaryOp) (operand : Ty) : Except TypeError Checked :=
  match op with
  | .minus =>
    if operand.isNumeric then .ok { type := operand } else .error (.invalidNegation operand)
  | .not => if operand = .bool then .ok { type := operand } else .error (.invalidNot operand)

/-- Converting on request. Only the two directions between booleans and integers warn of a loss: a
float cut to an integer was asked for. -/
def cast (target source : Ty) : Except TypeError Checked :=
  match target, source with
  | .nothing, _ => .error .castToNothing
  | _, .nothing => .error (.invalidCast target source)
  | .int, .int | .int, .float | .int, .string => .ok { type := target }
  | .int, .bool | .bool, .int =>
    .ok { type := target, warning := some (.castLosesResolution target source) }
  | .float, .int | .float, .float | .float, .string => .ok { type := target }
  | .string, .int | .string, .float | .string, .string | .string, .bool => .ok { type := target }
  | .bool, .bool => .ok { type := target }
  | .bool, .float | .bool, .string | .bool, .struct _ =>
    .ok { type := target, warning := some (.castAlwaysTrue source) }
  | .struct a, .struct b =>
    if a = b then .ok { type := target } else .error (.invalidCast target source)
  | _, _ => .error (.invalidCast target source)

end Rules

end Semant
