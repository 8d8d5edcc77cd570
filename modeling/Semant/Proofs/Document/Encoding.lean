import Mathlib.Data.List.Forall2
import Mathlib.Data.List.Perm.Basic
import Semant.Document.Basic
import Semant.Proofs.Json.Numerals

/-!
# Encodings of documents

A document can be written as JSON in many ways, and `Document.Encodes` says which. The choice is made at
every node anew:

* as an object, whose fields stand in any order, and among which there may be fields of other names;
* as an array of the fields in their order, of which some at the end may be missing.

A field may be missing if its content is what its absence stands for: no flag, no element, nothing at
all where something is optional. In the last case `null` may stand in its place. The tag is a field
like the others. Those of expressions and statements are names or numbers.

All this is said of the content alone; no table of the reader is used.
-/

set_option autoImplicit false

namespace Semant.Document

/-- The values that stand for something. -/
abbrev Encoder := Json → Prop

namespace Encoder

def text (s : String) : Encoder := fun v => v = .string s

def flag (b : Bool) : Encoder := fun v => v = .bool b

def place (p : Place) : Encoder := fun v =>
  v = .array [.ofNat p.line.toNat, .ofNat p.column.toNat]

/-- A tag may be given by its name or by its number. -/
def tag (name : String) (index : Nat) : Encoder := fun v => v = .string name ∨ v = .ofNat index

/-- What is absent is `null`. -/
def orNull : Option Encoder → Encoder
  | none => fun v => v = .null
  | some encoder => encoder

def list (encoders : List Encoder) : Encoder := fun v =>
  ∃ values, v = .array values ∧ List.Forall₂ (fun encoder v => encoder v) encoders values

end Encoder

/-- A field of a node, and the values it may have. -/
structure Slot where
  name : String
  encoder : Encoder
  /-- Whether the field may be missing. -/
  omissible : Bool

namespace Slot

def required (name : String) (encoder : Encoder) : Slot := ⟨name, encoder, false⟩

def flag (name : String) (b : Bool) : Slot := ⟨name, .flag b, !b⟩

def optional (name : String) (encoder : Option Encoder) : Slot :=
  ⟨name, .orNull encoder, encoder.isNone⟩

def defaulted (name : String) (encoders : List Encoder) : Slot :=
  ⟨name, .list encoders, encoders.isEmpty⟩

end Slot

/-- The fields of a node in their order, some of them missing. -/
inductive Filled : List Slot → List (String × Json) → Prop
  | nil : Filled [] []
  | given {slot : Slot} {slots : List Slot} {fields : List (String × Json)} {v : Json}
      (h : slot.encoder v) (hrest : Filled slots fields) :
      Filled (slot :: slots) ((slot.name, v) :: fields)
  | missing {slot : Slot} {slots : List Slot} {fields : List (String × Json)}
      (h : slot.omissible = true) (hrest : Filled slots fields) : Filled (slot :: slots) fields

namespace Encoder

/-- The fields in any order, together with other ones. -/
def object (slots : List Slot) : Encoder := fun v =>
  ∃ fields others entries, Filled slots fields ∧ (∀ e ∈ others, e.1 ∉ slots.map Slot.name) ∧
    entries.Perm (fields ++ others) ∧ v = .object entries

/-- The fields in their order, up to one behind which all may be missing. -/
def array (slots : List Slot) : Encoder := fun v =>
  ∃ front back values, slots = front ++ back ∧ (∀ slot ∈ back, slot.omissible = true) ∧
    List.Forall₂ (fun slot v => slot.encoder v) front values ∧ v = .array values

def node (slots : List Slot) : Encoder := fun v => object slots v ∨ array slots v

end Encoder

open Slot (required optional defaulted)
open Encoder (node)

mutual

/-- The ways to write an expression. -/
def Expr.Encodes : Expr → Encoder
  | .literal type value place => node [required "expr" (.tag "literal" 0), required "type" (.text type),
      required "value" (.text value), required "at" (.place place)]
  | .var name place => node [required "expr" (.tag "var" 1), required "name" (.text name),
      required "at" (.place place)]
  | .call name place args => node [required "expr" (.tag "call" 2), required "name" (.text name),
      required "at" (.place place), defaulted "args" (Expr.encoders args)]
  | .binary op place lhs rhs => node [required "expr" (.tag "binary" 3), required "op" (.text op),
      required "at" (.place place), required "lhs" lhs.Encodes, required "rhs" rhs.Encodes]
  | .unary op place operand => node [required "expr" (.tag "unary" 4), required "op" (.text op),
      required "at" (.place place), required "operand" operand.Encodes]
  | .cast type place operand => node [required "expr" (.tag "cast" 5), required "type" (.text type),
      required "at" (.place place), required "operand" operand.Encodes]
  | .group value => node [required "expr" (.tag "group" 6), required "value" value.Encodes]
  | .format content place args => node [required "expr" (.tag "format" 7), required "text" (.text content),
      required "at" (.place place), defaulted "args" (Expr.encoders args)]

def Expr.encoders : List Expr → List Encoder
  | [] => []
  | e :: rest => e.Encodes :: Expr.encoders rest

end

/-- The fields of a declaration. -/
def Decl.slots (d : Decl) : List Slot :=
  [.flag "const" d.isConst, required "type" (.text d.type), required "name" (.text d.name),
    required "at" (.place d.place), optional "name_at" (d.namePlace.map Encoder.place),
    optional "init" (d.init.map Expr.Encodes)]

mutual

/-- The ways to write a statement. -/
def Stmt.Encodes : Stmt → Encoder
  | .data decl => node (required "stmt" (.tag "data" 0) :: decl.slots)
  | .assign name place value => node [required "stmt" (.tag "assign" 1), required "name" (.text name),
      required "at" (.place place), required "value" value.Encodes]
  | .expr value => node [required "stmt" (.tag "expr" 2), required "value" value.Encodes]
  | .branch place cond body otherwise => node [required "stmt" (.tag "if" 3), required "at" (.place place),
      required "cond" cond.Encodes, required "then" (.list (Stmt.encoders body)),
      optional "else" (Stmt.optionEncoder otherwise)]
  | .whileLoop place cond body => node [required "stmt" (.tag "while" 4), required "at" (.place place),
      optional "cond" (cond.map Expr.Encodes), required "body" (.list (Stmt.encoders body))]
  | .doLoop place body cond => node [required "stmt" (.tag "do" 5), required "at" (.place place),
      required "body" (.list (Stmt.encoders body)), optional "cond" (cond.map Expr.Encodes)]
  | .ret place value => node [required "stmt" (.tag "return" 6), required "at" (.place place),
      optional "value" (value.map Expr.Encodes)]
  | .yield place value => node [required "stmt" (.tag "yield" 7), required "at" (.place place),
      optional "value" (value.map Expr.Encodes)]
  | .brk place => node [required "stmt" (.tag "break" 8), required "at" (.place place)]
  | .cont place => node [required "stmt" (.tag "continue" 9), required "at" (.place place)]
  | .inline place content => node [required "stmt" (.tag "inline" 10), required "at" (.place place),
      required "text" (.text content)]
  | .block place body => node [required "stmt" (.tag "block" 11), required "at" (.place place),
      required "body" (.list (Stmt.encoders body))]

def Stmt.encoders : List Stmt → List Encoder
  | [] => []
  | s :: rest => s.Encodes :: Stmt.encoders rest

def Stmt.optionEncoder : Option Stmt → Option Encoder
  | none => none
  | some s => some s.Encodes

end

/-- The fields of an item. Its tag cannot be a number. -/
def Item.slots : Item → List Slot
  | .imports path place => [required "item" (.text "import"), required "path" (.text path),
      required "at" (.place place)]
  | .data decl => required "item" (.text "data") :: decl.slots
  | .function isIterator returns name place namePlace params body =>
    [required "item" (.text "function"), .flag "iterator" isIterator, required "returns" (.text returns),
      required "name" (.text name), required "at" (.place place),
      optional "name_at" (namePlace.map Encoder.place),
      defaulted "parameters" (params.map fun d => node d.slots),
      required "body" (.list (Stmt.encoders body))]
  | .start place body => [required "item" (.text "start"), required "at" (.place place),
      required "body" (.list (Stmt.encoders body))]

end Semant.Document

namespace Semant

/-- The ways to write a document. -/
def Document.Encodes (d : Document) : Document.Encoder :=
  .node [.required "file" (.text d.file),
    .defaulted "items" (d.items.map fun item => .node item.slots)]

end Semant
