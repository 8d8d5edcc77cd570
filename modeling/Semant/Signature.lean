import Semant.Diagnostic.Code
import Semant.Ty

/-!
# Signatures

A function is called by its signature: its return type, its name and the types of its parameters
in order. Two signatures are the same only if all three agree, and a call is valid only if the
signature that its arguments make is the declared one. No argument is converted on the way in.

An argument whose own type is unknown has been reported already, so such a call is only checked
for the number of its arguments.
-/

set_option autoImplicit false

namespace Semant

structure Signature where
  returns : Ty
  name : String
  params : List Ty
  deriving DecidableEq, Repr, Inhabited

namespace Signature

def arity (s : Signature) : Nat := s.params.length

/-- A signature as text, without blanks between the parameters: `int f(int,float)`. The names are
not quoted, so a struct called `int` looks like the built-in type. -/
def text (s : Signature) : String :=
  s.returns.text ++ " " ++ s.name ++ "(" ++ ",".intercalate (s.params.map Ty.text) ++ ")"

end Signature

inductive CallError where
  | arityMismatch (expected found : Nat)
  | signatureMismatch (expected found : Signature)
  deriving DecidableEq, Repr

namespace CallError

def code : CallError → Code
  | arityMismatch .. => .arityMismatch
  | signatureMismatch .. => .signatureMismatch

def message : CallError → String
  | arityMismatch expected found =>
    "expected " ++ toString expected ++ " function parameters but got " ++ toString found
  | signatureMismatch expected found =>
    "expected function proto " ++ expected.text ++ " but got " ++ found.text

end CallError

def knownTypes? : List (Option Ty) → Option (List Ty)
  | [] => some []
  | none :: _ => none
  | some type :: rest => (knownTypes? rest).map (type :: ·)

/-- The number of arguments is checked first and needs no types. One argument of unknown type is
enough for the types not to be checked at all. -/
def Signature.validate (declared : Signature) (args : List (Option Ty)) : Except CallError Unit :=
  if declared.arity ≠ args.length then
    .error (.arityMismatch declared.arity args.length)
  else
    match knownTypes? args with
    | none => .ok ()
    | some types =>
      let found := { declared with params := types }
      if declared = found then .ok () else .error (.signatureMismatch declared found)

end Semant
