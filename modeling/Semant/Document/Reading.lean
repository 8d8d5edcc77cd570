import Semant.Document.Shape

/-!
# Reading the nodes of a document

What a JSON value means depends on the role it plays: the same array may be a place, a list of
expressions or an expression written as an array. `Reading` is what a value means in every role,
and `Json.reading` finds it from the inside out. Each role of a node is then a plain function of
the readings of its parts.

In every role the first fault counts. The tag of a node comes before its fields, the fields are
looked at in the order in which they are written, and only then is it noticed which are missing.
-/

set_option autoImplicit false

namespace Semant.Document

open Json (Fault)

/-- What a value means in each of its roles. The roles that a value cannot play are faults, so each
kind of value names only the ones it can. -/
structure Reading where
  isNull : Bool := false
  /-- The number, of a value that is a natural number. -/
  nat? : Option Nat := none
  text : Except Fault String := .error .wrongKind
  flag : Except Fault Bool := .error .wrongKind
  place : Except Fault Place := .error .wrongKind
  expr : Except Fault Expr := .error .wrongKind
  exprs : Except Fault (List Expr) := .error .wrongKind
  stmt : Except Fault Stmt := .error .wrongKind
  stmts : Except Fault (List Stmt) := .error .wrongKind
  decl : Except Fault Decl := .error .wrongKind
  decls : Except Fault (List Decl) := .error .wrongKind

namespace Reading

def optional {α : Type} (role : Reading → Except Fault α) (r : Reading) :
    Except Fault (Option α) :=
  if r.isNull then .ok none else (role r).map some

def check (r : Reading) : Role → Except Fault Unit
  | .text => r.text.map fun _ => ()
  | .flag => r.flag.map fun _ => ()
  | .place => r.place.map fun _ => ()
  | .optionalPlace => (r.optional place).map fun _ => ()
  | .expr => r.expr.map fun _ => ()
  | .optionalExpr => (r.optional expr).map fun _ => ()
  | .exprs => r.exprs.map fun _ => ()
  | .optionalStmt => (r.optional stmt).map fun _ => ()
  | .stmts => r.stmts.map fun _ => ()
  | .decls => r.decls.map fun _ => ()

def word? (r : Reading) : Option UInt32 :=
  match r.nat? with
  | some n => if n < UInt32.size then some (UInt32.ofNat n) else none
  | none => none

end Reading

/-! ## Fields -/

structure Fields where
  /-- Whether the node was written as an array. -/
  isArray : Bool
  entries : List (String × Reading)

namespace Fields

/-- Names that are not in the shape are passed over; others may occur once. A value is checked where
it is met, hence before a later repetition and before a missing field is noticed. -/
def checkEntries (shape : Shape) (seen : List String) :
    List (String × Reading) → Except Fault Unit
  | [] => .ok ()
  | (name, r) :: rest =>
    match shape.lookup name with
    | none => checkEntries shape seen rest
    | some role =>
      if seen.contains name then .error (.shape (.duplicateField name))
      else do
        r.check role
        checkEntries shape (name :: seen) rest

def ofObject (shape : Shape) (entries : List (String × Reading)) : Except Fault Fields := do
  checkEntries shape [] entries
  return ⟨false, entries⟩

/-- An array may be shorter than the shape but not longer. That it is too long counts only if the
elements up to there can play their roles. -/
def ofArray (shape : Shape) (elements : List Reading) : Except Fault Fields := do
  let entries := (shape.map (·.1)).zip elements
  checkEntries shape [] entries
  if shape.length < elements.length then throw .wrongKind
  return ⟨true, entries⟩

/-- A field that has to be there. An array that stops short of it has the wrong length. -/
def required {α : Type} (fields : Fields) (name : String) (role : Reading → Except Fault α) :
    Except Fault α :=
  match fields.entries.lookup name with
  | some r => role r
  | none => .error (if fields.isArray then .wrongKind else .shape (.missingField name))

def defaulted {α : Type} (fields : Fields) (name : String) (role : Reading → Except Fault α)
    (absent : α) : Except Fault α :=
  match fields.entries.lookup name with
  | some r => role r
  | none => .ok absent

def optional {α : Type} (fields : Fields) (name : String) (role : Reading → Except Fault α) :
    Except Fault (Option α) :=
  fields.defaulted name (Reading.optional role) none

end Fields

/-! ## Tags -/

/-- The tag that a value names, by its name or by its place in the list. -/
def readTag {τ : Type} (tags : List τ) (nameOf : τ → String) (r : Reading) : Except Fault τ :=
  match r.text, r.nat? with
  | .ok name, _ =>
    match tags.find? fun tag => nameOf tag == name with
    | some tag => .ok tag
    | none => .error (.shape (.unknownVariant name))
  | .error _, some n =>
    match tags[n]? with
    | some tag => .ok tag
    | none => .error .wrongKind
  | .error _, none => .error .wrongKind

/-- Finds the tag among the fields of an object. A second one is a fault even if it says the same.
-/
def findTag {τ : Type} (key : String) (read : Reading → Except Fault τ) :
    Option τ → List (String × Reading) → Except Fault τ
  | some tag, [] => .ok tag
  | none, [] => .error (.shape (.missingField key))
  | found, (name, r) :: rest =>
    if name = key then
      match found with
      | some _ => .error (.shape (.duplicateField key))
      | none => do
        let tag ← read r
        findTag key read (some tag) rest
    else findTag key read found rest

def taggedObject {τ : Type} (key : String) (read : Reading → Except Fault τ) (shape : τ → Shape)
    (entries : List (String × Reading)) : Except Fault (τ × Fields) := do
  let tag ← findTag key read none entries
  let fields ← Fields.ofObject (shape tag) (entries.filter fun e => e.1 ≠ key)
  return (tag, fields)

def taggedArray {τ : Type} (key : String) (read : Reading → Except Fault τ) (shape : τ → Shape)
    (elements : List Reading) : Except Fault (τ × Fields) :=
  match elements with
  | [] => .error (.shape (.missingField key))
  | first :: rest => do
    let tag ← read first
    let fields ← Fields.ofArray (shape tag) rest
    return (tag, fields)

/-! ## Nodes -/

def exprOf (tag : ExprTag) (fields : Fields) : Except Fault Expr :=
  match tag with
  | .literal => do
    let type ← fields.required "type" Reading.text
    let value ← fields.required "value" Reading.text
    let place ← fields.required "at" Reading.place
    return .literal type value place
  | .var => do
    let name ← fields.required "name" Reading.text
    let place ← fields.required "at" Reading.place
    return .var name place
  | .call => do
    let name ← fields.required "name" Reading.text
    let place ← fields.required "at" Reading.place
    let args ← fields.defaulted "args" Reading.exprs []
    return .call name place args
  | .binary => do
    let op ← fields.required "op" Reading.text
    let place ← fields.required "at" Reading.place
    let lhs ← fields.required "lhs" Reading.expr
    let rhs ← fields.required "rhs" Reading.expr
    return .binary op place lhs rhs
  | .unary => do
    let op ← fields.required "op" Reading.text
    let place ← fields.required "at" Reading.place
    let operand ← fields.required "operand" Reading.expr
    return .unary op place operand
  | .cast => do
    let type ← fields.required "type" Reading.text
    let place ← fields.required "at" Reading.place
    let operand ← fields.required "operand" Reading.expr
    return .cast type place operand
  | .group => do
    let value ← fields.required "value" Reading.expr
    return .group value
  | .format => do
    let text ← fields.required "text" Reading.text
    let place ← fields.required "at" Reading.place
    let args ← fields.defaulted "args" Reading.exprs []
    return .format text place args

/-- The fields of a declaration are those of a parameter, of a data statement and of a data item
alike. -/
def declOf (fields : Fields) : Except Fault Decl := do
  let isConst ← fields.defaulted "const" Reading.flag false
  let type ← fields.required "type" Reading.text
  let name ← fields.required "name" Reading.text
  let place ← fields.required "at" Reading.place
  let namePlace ← fields.optional "name_at" Reading.place
  let init ← fields.optional "init" Reading.expr
  return { isConst, type, name, place, namePlace, init }

def stmtOf (tag : StmtTag) (fields : Fields) : Except Fault Stmt :=
  match tag with
  | .data => (declOf fields).map .data
  | .assign => do
    let name ← fields.required "name" Reading.text
    let place ← fields.required "at" Reading.place
    let value ← fields.required "value" Reading.expr
    return .assign name place value
  | .expr => do
    let value ← fields.required "value" Reading.expr
    return .expr value
  | .branch => do
    let place ← fields.required "at" Reading.place
    let cond ← fields.required "cond" Reading.expr
    let body ← fields.required "then" Reading.stmts
    let otherwise ← fields.optional "else" Reading.stmt
    return .branch place cond body otherwise
  | .whileLoop => do
    let place ← fields.required "at" Reading.place
    let cond ← fields.optional "cond" Reading.expr
    let body ← fields.required "body" Reading.stmts
    return .whileLoop place cond body
  | .doLoop => do
    let place ← fields.required "at" Reading.place
    let body ← fields.required "body" Reading.stmts
    let cond ← fields.optional "cond" Reading.expr
    return .doLoop place body cond
  | .ret => do
    let place ← fields.required "at" Reading.place
    let value ← fields.optional "value" Reading.expr
    return .ret place value
  | .yield => do
    let place ← fields.required "at" Reading.place
    let value ← fields.optional "value" Reading.expr
    return .yield place value
  | .brk => do
    let place ← fields.required "at" Reading.place
    return .brk place
  | .cont => do
    let place ← fields.required "at" Reading.place
    return .cont place
  | .inline => do
    let place ← fields.required "at" Reading.place
    let text ← fields.required "text" Reading.text
    return .inline place text
  | .block => do
    let place ← fields.required "at" Reading.place
    let body ← fields.required "body" Reading.stmts
    return .block place body

def itemOf (tag : ItemTag) (fields : Fields) : Except Fault Item :=
  match tag with
  | .imports => do
    let path ← fields.required "path" Reading.text
    let place ← fields.required "at" Reading.place
    return .imports path place
  | .data => (declOf fields).map .data
  | .function => do
    let isIterator ← fields.defaulted "iterator" Reading.flag false
    let returns ← fields.required "returns" Reading.text
    let name ← fields.required "name" Reading.text
    let place ← fields.required "at" Reading.place
    let namePlace ← fields.optional "name_at" Reading.place
    let params ← fields.defaulted "parameters" Reading.decls []
    let body ← fields.required "body" Reading.stmts
    return .function isIterator returns name place namePlace params body
  | .start => do
    let place ← fields.required "at" Reading.place
    let body ← fields.required "body" Reading.stmts
    return .start place body

namespace Reading

def ofString (s : String) : Reading := { text := .ok s }

/-- An array may be a node, a list of nodes or a place, so it plays all roles but those of a word
and a flag. -/
def ofArray (elements : List Reading) : Reading where
  place :=
    match elements with
    | [line, column] =>
      match line.word?, column.word? with
      | some line, some column => .ok ⟨line, column⟩
      | _, _ => .error .wrongKind
    | _ => .error .wrongKind
  expr := do
    let (tag, fields) ← taggedArray "expr" (readTag ExprTag.all ExprTag.name) ExprTag.shape elements
    exprOf tag fields
  exprs := elements.mapM Reading.expr
  stmt := do
    let (tag, fields) ← taggedArray "stmt" (readTag StmtTag.all StmtTag.name) StmtTag.shape elements
    stmtOf tag fields
  stmts := elements.mapM Reading.stmt
  decl := do declOf (← Fields.ofArray declShape elements)
  decls := elements.mapM Reading.decl

def ofObject (entries : List (String × Reading)) : Reading where
  expr := do
    let (tag, fields) ← taggedObject "expr" (readTag ExprTag.all ExprTag.name) ExprTag.shape entries
    exprOf tag fields
  stmt := do
    let (tag, fields) ← taggedObject "stmt" (readTag StmtTag.all StmtTag.name) StmtTag.shape entries
    stmtOf tag fields
  decl := do declOf (← Fields.ofObject declShape entries)

end Reading

end Semant.Document

namespace Semant.Json

open Document (Reading)

mutual

/-- Structural recursion over the value, which does not ask for its role. Which of the readings of a
part counts is up to the node around it. -/
def reading : Json → Reading
  | .null => { isNull := true }
  | .bool b => { flag := .ok b }
  | .number n => { nat? := n.toNat? }
  | .string s => .ofString s
  | .array elements => .ofArray (readingsOf elements)
  | .object fields => .ofObject (fieldReadings fields)

def readingsOf : List Json → List Reading
  | [] => []
  | value :: rest => value.reading :: readingsOf rest

def fieldReadings : List (String × Json) → List (String × Reading)
  | [] => []
  | (name, value) :: rest => (name, value.reading) :: fieldReadings rest

end

end Semant.Json
