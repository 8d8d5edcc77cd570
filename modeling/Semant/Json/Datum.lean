import Semant.Json.Pretty

/-!
# Values handed over to be written

What is written is not a JSON value from the start. It is data of any kind, and there a mapping may
have anything for a key, while the keys of an object are texts. So writing can fail, and it does at
the first key that is no text.
-/

set_option autoImplicit false

namespace Semant.Json

inductive WriteError where
  | keyNotText
  deriving DecidableEq, Repr

def WriteError.message : WriteError → String
  | keyNotText => "key must be a string"

inductive Datum where
  | bool (value : Bool)
  | number (n : Numeral)
  | string (s : String)
  | sequence (elements : List Datum)
  | mapping (entries : List (Datum × Datum))
  deriving Inhabited

namespace Datum

/-- Data with named fields. They are handed over like any other mapping, so a key of theirs is
looked at like any other key. -/
def record (fields : List (String × Datum)) : Datum :=
  .mapping (fields.map fun field => (.string field.1, field.2))

def ofNat (n : Nat) : Datum := .number (.ofNat n)

def key : Datum → Except WriteError String
  | .string s => .ok s
  | _ => .error .keyNotText

mutual

/-- Keys are looked at on the way, each before the value behind it. The first one that is no text
ends the writing, and what was written until then is not returned. -/
def value : Datum → Except WriteError Json
  | .bool b => .ok (.bool b)
  | .number n => .ok (.number n)
  | .string s => .ok (.string s)
  | .sequence elements => do
    return .array (← elementValues elements)
  | .mapping entries => do
    return .object (← entryValues entries)

def elementValues : List Datum → Except WriteError (List Json)
  | [] => .ok []
  | element :: rest => do
    let first ← element.value
    return first :: (← elementValues rest)

def entryValues : List (Datum × Datum) → Except WriteError (List (String × Json))
  | [] => .ok []
  | (key, value) :: rest => do
    let name ← key.key
    let first ← value.value
    return (name, first) :: (← entryValues rest)

end

def write (d : Datum) : Except WriteError String := do
  return (← d.value).pretty

end Datum

end Semant.Json
