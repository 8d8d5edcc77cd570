import Semant.Document.Reading

/-!
# Reading a document

A document is read from front to back, and whatever is wrong first is what is reported. Its fields
are taken one by one; each item is complete before its own fields are looked at, except that its
tag is checked on the spot. So a misshapen item hides everything that is wrong behind it, while
inside one item bad JSON comes before a bad shape.

Fields that a document does not have are skimmed.
-/

set_option autoImplicit false

namespace Semant.Document

open Json

def readText : List Lexeme → Except Fault (String × List Lexeme)
  | [] => .error .ended
  | .string parts stop :: rest => do
    return (← readString parts stop, rest)
  | lexeme :: _ => .error lexeme.mismatch

/-- The tag of an item is read where it stands and has to be a word. The tags of the nodes inside an
item are found in finished values, and may also be numbers (`readTag`). -/
def readItemTag (ls : List Lexeme) : Except Fault (ItemTag × List Lexeme) := do
  let (name, rest) ← readText ls
  return (← ItemTag.ofName name, rest)

/-- Reads one field of an item. The tag is kept apart from the other fields, which cannot be looked
at before it is known. -/
def readItemField (fuel depth : Nat) (tag : Option ItemTag) (fields : List (String × Json))
    (ls : List Lexeme) :
    Except Fault (Option ItemTag × List (String × Json) × List Lexeme) := do
  let (key, rest) ← readKey ls
  if key = "item" then
    if tag.isSome then throw (.shape (.duplicateField "item"))
    let (tag, rest) ← readItemTag (← readColon rest)
    return (some tag, fields, rest)
  else
    let (value, rest) ← readValue fuel depth (← readColon rest)
    return (tag, (key, value) :: fields, rest)

/-- The fields come in reverse order. `fuel` is a bound on the lexemes that are left, so it never
runs out before they do. -/
def readItemFields (depth : Nat) : Nat → Option ItemTag → List (String × Json) → List Lexeme →
    Except Fault (Option ItemTag × List (String × Json) × List Lexeme)
  | 0, _, _, _ => .error .ended
  | _ + 1, _, _, [] => .error .ended
  | fuel + 1, tag, fields, lexeme :: rest =>
    match lexeme with
    | .closeObject => .ok (tag, fields, rest)
    | .comma => do
      let (tag, fields, rest) ← readItemField fuel depth tag fields rest
      readItemFields depth fuel tag fields rest
    | _ => .error .malformed

/-- Reads an item in which at most `depth` containers are nested. -/
def readItem (fuel : Nat) : Nat → List Lexeme → Except Fault (Item × List Lexeme)
  | _, [] => .error .ended
  -- too deep, whatever the item is
  | 0, .openArray :: _ | 0, .openObject :: _ => .error .malformed
  | _ + 1, .openArray :: .closeArray :: _ => .error (.shape (.missingField "item"))
  | depth + 1, .openArray :: rest => do
    let (tag, rest) ← readItemTag rest
    let (elements, rest) ← readElements fuel depth [] rest
    let fields ← Fields.ofArray tag.shape (readingsOf elements)
    return (← itemOf tag fields, rest)
  | _ + 1, .openObject :: .closeObject :: _ => .error (.shape (.missingField "item"))
  | depth + 1, .openObject :: rest => do
    let (tag, fields, rest) ← readItemField fuel depth none [] rest
    let (tag, fields, rest) ← readItemFields depth fuel tag fields rest
    match tag with
    | none => throw (.shape (.missingField "item"))
    | some tag =>
      let fields ← Fields.ofObject tag.shape (fieldReadings fields.reverse)
      return (← itemOf tag fields, rest)
  | _, lexeme :: _ => .error lexeme.mismatch

def readMoreItems (depth : Nat) : Nat → List Item → List Lexeme →
    Except Fault (List Item × List Lexeme)
  | 0, _, _ => .error .ended
  | _ + 1, _, [] => .error .ended
  | fuel + 1, items, lexeme :: rest =>
    match lexeme with
    | .closeArray => .ok (items.reverse, rest)
    | .comma => do
      let (item, rest) ← readItem fuel depth rest
      readMoreItems depth fuel (item :: items) rest
    | _ => .error .malformed

def readItems (fuel depth : Nat) : List Lexeme → Except Fault (List Item × List Lexeme)
  | [] => .error .ended
  | .openArray :: .closeArray :: rest => .ok ([], rest)
  | .openArray :: rest => do
    let (item, rest) ← readItem fuel depth rest
    readMoreItems depth fuel [item] rest
  | lexeme :: _ => .error lexeme.mismatch

structure Draft where
  file : Option String := none
  items : Option (List Item) := none

/-- A document without items is a program of no items. One without a file is none. -/
def Draft.finish (draft : Draft) : Except Fault Document :=
  match draft.file with
  | none => .error (.shape (.missingField "file"))
  | some file => .ok { file, items := draft.items.getD [] }

def readDocumentField (fuel depth : Nat) (draft : Draft) (ls : List Lexeme) :
    Except Fault (Draft × List Lexeme) := do
  let (key, rest) ← readKey ls
  if key = "file" then
    if draft.file.isSome then throw (.shape (.duplicateField "file"))
    let (file, rest) ← readText (← readColon rest)
    return ({ draft with file := some file }, rest)
  else if key = "items" then
    if draft.items.isSome then throw (.shape (.duplicateField "items"))
    let (items, rest) ← readItems fuel depth (← readColon rest)
    return ({ draft with items := some items }, rest)
  else
    return (draft, ← skim (← readColon rest))

def readDocumentFields (depth : Nat) : Nat → Draft → List Lexeme →
    Except Fault (Draft × List Lexeme)
  | 0, _, _ => .error .ended
  | _ + 1, _, [] => .error .ended
  | fuel + 1, draft, lexeme :: rest =>
    match lexeme with
    | .closeObject => .ok (draft, rest)
    | .comma => do
      let (draft, rest) ← readDocumentField fuel depth draft rest
      readDocumentFields depth fuel draft rest
    | _ => .error .malformed

def readDocumentArray (fuel depth : Nat) : List Lexeme → Except Fault (Document × List Lexeme)
  | .closeArray :: _ => .error .wrongKind
  | ls => do
    let (file, rest) ← readText ls
    let (items, rest) ←
      match rest with
      | .comma :: rest => readItems fuel depth rest
      | rest => pure ([], rest)
    match rest with
    | [] => throw .ended
    | .closeArray :: rest => return ({ file, items }, rest)
    | _ => throw .malformed

/-- Reads a document from the front of a list of lexemes. Inside it, one container less may be
nested for the document itself and one for the list of its items. -/
def readDocument (fuel : Nat) : List Lexeme → Except Fault (Document × List Lexeme)
  | [] => .error .ended
  | .openObject :: .closeObject :: rest => do
    return (← Draft.finish {}, rest)
  | .openObject :: rest => do
    let (draft, rest) ← readDocumentField fuel (maxDepth - 2) {} rest
    let (draft, rest) ← readDocumentFields (maxDepth - 2) fuel draft rest
    return (← draft.finish, rest)
  | .openArray :: rest => readDocumentArray fuel (maxDepth - 2) rest
  | lexeme :: _ => .error lexeme.mismatch

def read (text : String) : Except Fault Document := do
  let ls := lexemes text
  let (document, rest) ← readDocument (ls.length + 1) ls
  if rest.isEmpty then return document else throw .malformed

end Semant.Document
