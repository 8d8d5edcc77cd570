import Semant.Json.Lexeme

/-!
# Reading values

A value is read from the front of a list of lexemes, which gives the value and the lexemes behind
it. Containers may be nested only so deep, and going deeper is a fault at the bracket.

A value that nobody wants is skimmed instead: brackets have to match, but nothing is kept and there
is no limit to the depth.
-/

set_option autoImplicit false

namespace Semant

/-- A JSON value. The fields of an object keep their order, and may repeat. -/
inductive Json where
  | null
  | bool (value : Bool)
  | number (n : Json.Numeral)
  | string (s : String)
  | array (elements : List Json)
  | object (fields : List (String × Json))
  deriving Inhabited

namespace Json

def maxDepth : Nat := 127

def readString (parts : List StringPart) (stop : StringEnd) : Except Fault String :=
  (stringText parts stop).map String.ofList

/-- What is wrong when a lexeme stands where a value of another kind is wanted. A scalar is looked
at in full before its kind is, so a broken string is broken wherever it stands. -/
def Lexeme.mismatch : Lexeme → Fault
  | .number n => if n.fitsDouble then .wrongKind else .malformed
  | .string parts stop =>
    match readString parts stop with
    | .ok _ => .wrongKind
    | .error fault => fault
  | .broken full _ => full
  | .null | .bool _ | .openArray | .openObject => .wrongKind
  | .closeArray | .closeObject | .colon | .comma => .malformed

def readColon : List Lexeme → Except Fault (List Lexeme)
  | [] => .error .ended
  | .colon :: rest => .ok rest
  | _ => .error .malformed

def readKey : List Lexeme → Except Fault (String × List Lexeme)
  | [] => .error .ended
  | .string parts stop :: rest => do
    return (← readString parts stop, rest)
  | _ => .error .malformed

mutual

/-- Reads a value in which at most `depth` containers are nested, looking at no more than `fuel`
lexemes. -/
def readValue : Nat → Nat → List Lexeme → Except Fault (Json × List Lexeme)
  | 0, _, _ => .error .ended
  | _ + 1, _, [] => .error .ended
  | fuel + 1, depth, lexeme :: rest =>
    match lexeme with
    | .null => .ok (.null, rest)
    | .bool b => .ok (.bool b, rest)
    | .number n => if n.fitsDouble then .ok (.number n, rest) else .error .malformed
    | .string parts stop => do
      return (.string (← readString parts stop), rest)
    | .broken full _ => .error full
    | .openArray =>
      match depth, rest with
      | 0, _ => .error .malformed
      | _ + 1, .closeArray :: rest => .ok (.array [], rest)
      | depth + 1, rest => do
        let (first, rest) ← readValue fuel depth rest
        let (elements, rest) ← readElements fuel depth [first] rest
        return (.array elements, rest)
    | .openObject =>
      match depth, rest with
      | 0, _ => .error .malformed
      | _ + 1, .closeObject :: rest => .ok (.object [], rest)
      | depth + 1, rest => do
        let (key, rest) ← readKey rest
        let (value, rest) ← readValue fuel depth (← readColon rest)
        let (fields, rest) ← readFields fuel depth [(key, value)] rest
        return (.object fields, rest)
    | .closeArray | .closeObject | .colon | .comma => .error .malformed

def readElements : Nat → Nat → List Json → List Lexeme → Except Fault (List Json × List Lexeme)
  | 0, _, _, _ => .error .ended
  | _ + 1, _, _, [] => .error .ended
  | fuel + 1, depth, done, lexeme :: rest =>
    match lexeme with
    | .closeArray => .ok (done.reverse, rest)
    | .comma => do
      let (next, rest) ← readValue fuel depth rest
      readElements fuel depth (next :: done) rest
    | _ => .error .malformed

def readFields : Nat → Nat → List (String × Json) → List Lexeme →
    Except Fault (List (String × Json) × List Lexeme)
  | 0, _, _, _ => .error .ended
  | _ + 1, _, _, [] => .error .ended
  | fuel + 1, depth, done, lexeme :: rest =>
    match lexeme with
    | .closeObject => .ok (done.reverse, rest)
    | .comma => do
      let (key, rest) ← readKey rest
      let (value, rest) ← readValue fuel depth (← readColon rest)
      readFields fuel depth ((key, value) :: done) rest
    | _ => .error .malformed

end

/-- Reads a text that holds one value. One unit of `fuel` for each lexeme and one to see the end are
enough. -/
def parse (text : String) : Except Fault Json := do
  let ls := lexemes text
  let (value, rest) ← readValue (ls.length + 1) maxDepth ls
  if rest.isEmpty then return value else throw .malformed

/-! ## Skimming -/

inductive Container where
  | array
  | object
  deriving DecidableEq, Repr

inductive Expected where
  | value
  | firstElement
  | firstKey
  | key
  | colon
  | separator
  deriving DecidableEq, Repr

/-- The state of skimming. There is a stack where reading has recursion, which is why skimming has
no limit to the depth. -/
structure Skim where
  expected : Expected := .value
  stack : List Container := []
  deriving DecidableEq, Repr

namespace Skim

def afterValue (stack : List Container) : Skim := ⟨.separator, stack⟩

def isDone (s : Skim) : Bool := s.expected = .separator && s.stack.isEmpty

def stepValue (stack : List Container) : Lexeme → Except Fault Skim
  | .null | .bool _ | .number _ => .ok (afterValue stack)
  | .string _ stop => (skimString stop).map fun _ => afterValue stack
  | .openArray => .ok ⟨.firstElement, .array :: stack⟩
  | .openObject => .ok ⟨.firstKey, .object :: stack⟩
  | .broken _ skimmed => .error skimmed
  | .closeArray | .closeObject | .colon | .comma => .error .malformed

def stepKey (stack : List Container) : Lexeme → Except Fault Skim
  | .string _ stop => (skimString stop).map fun _ => ⟨.colon, stack⟩
  | _ => .error .malformed

def step (s : Skim) (lexeme : Lexeme) : Except Fault Skim :=
  match s.expected, lexeme, s.stack with
  | .value, lexeme, stack => stepValue stack lexeme
  | .firstElement, .closeArray, _ :: stack => .ok (afterValue stack)
  | .firstElement, lexeme, stack => stepValue stack lexeme
  | .firstKey, .closeObject, _ :: stack => .ok (afterValue stack)
  | .firstKey, lexeme, stack => stepKey stack lexeme
  | .key, lexeme, stack => stepKey stack lexeme
  | .colon, .colon, stack => .ok ⟨.value, stack⟩
  | .separator, .comma, .array :: stack => .ok ⟨.value, .array :: stack⟩
  | .separator, .comma, .object :: stack => .ok ⟨.key, .object :: stack⟩
  | .separator, .closeArray, .array :: stack => .ok (afterValue stack)
  | .separator, .closeObject, .object :: stack => .ok (afterValue stack)
  | _, _, _ => .error .malformed

def run (s : Skim) : List Lexeme → Except Fault (List Lexeme)
  | [] => .error .ended
  | lexeme :: rest => do
    let s ← s.step lexeme
    if s.isDone then return rest else s.run rest

end Skim

def skim (ls : List Lexeme) : Except Fault (List Lexeme) :=
  Skim.run {} ls

end Json

end Semant
