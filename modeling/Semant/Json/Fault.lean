/-!
# What can be wrong with a JSON text

Reading stops at the first fault. Either the text ends too early, or it is no JSON, or it is JSON
but not of the shape that is wanted. Only some faults of shape say more than that.
-/

set_option autoImplicit false

namespace Semant.Json

inductive Mismatch where
  /-- It is of another kind, out of range, or an array of the wrong length. -/
  | kind
  | missingField (name : String)
  | unknownVariant (name : String)
  | duplicateField (name : String)
  deriving DecidableEq, Repr

inductive Fault where
  | ended
  | malformed
  | shape (mismatch : Mismatch)
  deriving DecidableEq, Repr

namespace Fault

abbrev wrongKind : Fault := .shape .kind

def category : Fault → String
  | ended => "eof"
  | malformed => "syntax"
  | shape _ => "data"

/-- The faults of shape that name something. What is said about the others is no more than their
category. -/
def detail? : Fault → Option String
  | shape (.missingField name) => some ("missing field `" ++ name ++ "`")
  | shape (.unknownVariant name) => some ("unknown variant `" ++ name ++ "`")
  | shape (.duplicateField name) => some ("duplicate field `" ++ name ++ "`")
  | _ => none

def message (fault : Fault) : String :=
  fault.detail?.getD <|
    match fault with
    | ended => "unexpected end of the text"
    | malformed => "not a JSON text"
    | shape _ => "a value of another kind was expected"

end Fault

end Semant.Json
