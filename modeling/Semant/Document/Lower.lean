import Semant.Document.Reader
import Semant.Tree.Build

/-!
# From documents to trees

Every token of the tree stands where its own node of the document says. The cursor of the builder
is put there before each token, so the order in which nodes are built has no influence on places.
Two tokens have no place of their own: a type's name follows the keyword `const` or `iterator`, if
there is one, and a name follows its type's name unless the document says where it stands.

Operands are built before the node they belong to. An operator or a type of literals that does not
exist is noticed before anything of its node is built, and an impossible `else` when it is met.
-/

set_option autoImplicit false

namespace Semant.Document

def moveTo (place : Place) : Build Unit := Build.moveTo place.line place.column

def literalKind : String → Except BuildError (TokenKind × Ty)
  | "int" => .ok (.integerLiteral, .int)
  | "float" => .ok (.floatLiteral, .float)
  | "string" => .ok (.stringLiteral, .string)
  | "bool" => .ok (.boolLiteral, .bool)
  | other => .error (.unsupportedLiteral other)

def binaryOp (text : String) : Except BuildError BinaryOp :=
  match BinaryOp.ofText? text with
  | some op => .ok op
  | none => .error (.unknownOperator text)

def unaryOp (text : String) : Except BuildError UnaryOp :=
  match UnaryOp.ofText? text with
  | some op => .ok op
  | none => .error (.unknownOperator text)

mutual

def Expr.lower : Expr → Build Semant.Expr
  | .literal type value place => do
    let (kind, type) ← ofExcept (literalKind type)
    moveTo place
    Build.literal kind value (some type)
  | .var name place => do
    moveTo place
    Build.var name
  | .call name place args => do
    let args ← Expr.lowerList args
    moveTo place
    Build.call name args
  | .binary op place lhs rhs => do
    let op ← ofExcept (binaryOp op)
    let lhs ← lhs.lower
    let rhs ← rhs.lower
    moveTo place
    Build.binary op lhs rhs
  | .unary op place operand => do
    let op ← ofExcept (unaryOp op)
    let operand ← operand.lower
    moveTo place
    Build.unary op operand
  | .cast type place operand => do
    let operand ← operand.lower
    moveTo place
    Build.cast type operand
  | .group value => do
    let inner ← value.lower
    Build.group inner
  | .format text place args => do
    let args ← Expr.lowerList args
    moveTo place
    Build.format text args

def Expr.lowerList : List Expr → Build (List Semant.Expr)
  | [] => pure []
  | e :: rest => do
    let e ← e.lower
    let rest ← Expr.lowerList rest
    return e :: rest

end

def Expr.lowerOption : Option Expr → Build (Option Semant.Expr)
  | none => pure none
  | some e => do
    let e ← e.lower
    return some e

def lowerName (name : String) : Option Place → Build Identifier
  | none => Build.identifier name
  | some place => do
    moveTo place
    Build.identifier name

/-- The initial value is not built here but by `Decl.lowerData`: a parameter has no use for the one
that its document may carry, and what is not built cannot be at fault. -/
def Decl.lower (d : Decl) : Build Semant.Decl := do
  moveTo d.place
  if d.isConst then
    let _ ← Build.keyword .constWord
  let type ← Build.typeName d.type
  let name ← lowerName d.name d.namePlace
  Build.declare d.isConst type name

def Decl.lowerList : List Decl → Build (List Semant.Decl)
  | [] => pure []
  | d :: rest => do
    let d ← d.lower
    let rest ← Decl.lowerList rest
    return d :: rest

def Decl.lowerData (d : Decl) : Build DataDef := do
  let decl ← d.lower
  let init ← Expr.lowerOption d.init
  return { decl, init }

/-- The statements come first, the block around them last. The block of an `if`, a loop or a
function stands where that does. -/
def lowerBlock (place : Place) (body : Build (List Semant.Stmt)) : Build Block := do
  let body ← body
  moveTo place
  Build.block body

/-- Shared by an `if` and by the `else if`s behind it. -/
def lowerConditional (place : Place) (cond : Build Semant.Expr) (body : Build Block)
    (otherwise : Build Else) : Build Conditional := do
  let cond ← cond
  let body ← body
  let otherwise ← otherwise
  moveTo place
  Build.conditional cond body otherwise

mutual

def Stmt.lower : Stmt → Build Semant.Stmt
  | .data decl => do
    let definition ← decl.lowerData
    return .data definition
  | .assign name place value => do
    let value ← value.lower
    moveTo place
    let assignment ← Build.assign name value
    return .assign assignment
  | .expr value => do
    let value ← value.lower
    return .expr value
  | .branch place cond body otherwise => do
    let conditional ← lowerConditional place cond.lower (lowerBlock place (Stmt.lowerList body))
      (Stmt.lowerElse place otherwise)
    return .branch conditional
  | .whileLoop place cond body => do
    let cond ← Expr.lowerOption cond
    let body ← lowerBlock place (Stmt.lowerList body)
    moveTo place
    Build.whileLoop cond body
  | .doLoop place body cond => do
    let body ← lowerBlock place (Stmt.lowerList body)
    let cond ← Expr.lowerOption cond
    moveTo place
    Build.doLoop body cond
  | .ret place value => do
    let value ← Expr.lowerOption value
    moveTo place
    Build.ret value
  | .yield place value => do
    let value ← Expr.lowerOption value
    moveTo place
    Build.yield value
  | .brk place => do
    moveTo place
    Build.brk
  | .cont place => do
    moveTo place
    Build.cont
  | .inline place text => do
    moveTo place
    Build.inlineText text
  | .block place body => do
    let block ← lowerBlock place (Stmt.lowerList body)
    return .block block

def Stmt.lowerList : List Stmt → Build (List Semant.Stmt)
  | [] => pure []
  | s :: rest => do
    let s ← s.lower
    let rest ← Stmt.lowerList rest
    return s :: rest

/-- Builds what follows the block of the `if` at a place. The place is that of the nearest `if` and
only needed to say where an impossible `else` stands. -/
def Stmt.lowerElse (place : Place) : Option Stmt → Build Else
  | none => pure .none
  | some (.branch next cond body otherwise) => do
    let conditional ← lowerConditional next cond.lower (lowerBlock next (Stmt.lowerList body))
      (Stmt.lowerElse next otherwise)
    return .elseIf conditional
  | some (.block next body) => do
    let block ← lowerBlock next (Stmt.lowerList body)
    return .block block
  | some _ => throw (.invalidElse place.line place.column)

end

def Item.lower : Item → Build Semant.Item
  | .imports path place => do
    moveTo place
    let i ← Build.importFile path
    return .imports i
  | .data decl => do
    let definition ← decl.lowerData
    return .data definition
  | .function isIterator returns name place namePlace params body => do
    moveTo place
    if isIterator then
      let _ ← Build.keyword .iteratorWord
    let returns ← Build.typeName returns
    let name ← lowerName name namePlace
    let params ← Decl.lowerList params
    let body ← lowerBlock place (Stmt.lowerList body)
    let f ← Build.define isIterator returns name params body
    return .function f
  | .start place body => do
    let body ← lowerBlock place (Stmt.lowerList body)
    moveTo place
    let s ← Build.start body
    return .start s

def Item.lowerList : List Item → Build (List Semant.Item)
  | [] => pure []
  | item :: rest => do
    let item ← item.lower
    let rest ← Item.lowerList rest
    return item :: rest

end Semant.Document

namespace Semant

def Document.lower (d : Document) : Build Program := do
  let items ← Document.Item.lowerList d.items
  Build.program items

inductive LoadError where
  | json (fault : Json.Fault)
  | build (error : BuildError)
  deriving DecidableEq, Repr

def BuildError.message : BuildError → String
  | columnOverflow => "attempt to add with overflow"
  | unknownOperator text => "unknown operator: `" ++ text ++ "`"
  | unsupportedLiteral type => "literal of type `" ++ type ++ "` is not supported"
  | invalidElse line column =>
    "else branch at " ++ toString line.toNat ++ ":" ++ toString column.toNat
      ++ " must be an `if` statement or a block"

def LoadError.message : LoadError → String
  | json fault => fault.message
  | build error => error.message

/-- Reads a document and builds its tree, numbering the nodes from `next` on. The first number
that is not used is returned with it. -/
def Program.load (text : String) (next : NodeId) : Except LoadError (Program × NodeId) :=
  match Document.read text with
  | .error fault => .error (.json fault)
  | .ok document =>
    match document.lower.run { file := document.file, next } with
    | .ok program builder => .ok (program, builder.next)
    | .error error _ => .error (.build error)

end Semant
