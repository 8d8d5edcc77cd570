import Semant.Decimal.Layout
import Semant.Tree.Basic

/-!
# Building trees

A front end, or a test, makes a tree node by node. The builder gives every token the place of a
cursor and then moves the cursor past it, one column for each character and one for a blank, so
that tokens made one after another never overlap. `Build.moveTo` puts the cursor anywhere.

Columns are 32-bit words. A token that would push the cursor past the largest one is not made and
the cursor stays where it was, although tokens that the same construction made before it have
moved it already.

Children are built before their parent. A construction that needs a token of its own makes it
after its operands, in the order in which the fields of the node are written here.
-/

set_option autoImplicit false

namespace Semant

inductive BuildError where
  /-- A token reaches past the last column. -/
  | columnOverflow
  | unknownOperator (text : String)
  | unsupportedLiteral (type : String)
  /-- Something other than an `if` or a block follows the block of the `if` at this place. -/
  | invalidElse (line column : UInt32)
  deriving DecidableEq, Repr

structure Builder where
  file : String
  line : UInt32 := 1
  column : UInt32 := 1
  next : NodeId := 0
  deriving DecidableEq, Repr, Inhabited

/-- Constructions. A failed one keeps what it did to the cursor. -/
abbrev Build := EStateM BuildError Builder

def advance? (column : UInt32) (characters : Nat) : Option UInt32 :=
  let next := column.toNat + characters + 1
  if next < UInt32.size then some (UInt32.ofNat next) else none

/-- Floats are written with a point between `0.0001` and `10 ^ 16`, and with an exponent
elsewhere. -/
def floatLayout : Decimal.Layout := ⟨-4, 15⟩

namespace Build

def moveTo (line column : UInt32) : Build Unit :=
  modify fun b => { b with line, column }

/-- A number that no other node has. Only the builder hands numbers out, and it never goes back. -/
def fresh : Build NodeId :=
  modifyGet fun b => (b.next, { b with next := b.next + 1 })

def token (kind : TokenKind) (raw : String) : Build Token := do
  let b ← get
  match advance? b.column raw.length with
  | none => throw .columnOverflow
  | some column =>
    set { b with column }
    return ⟨kind, raw, ⟨b.file, b.line, b.column⟩⟩

def keyword (kind : TokenKind) : Build Token :=
  token kind kind.text

def identifier (name : String) : Build Identifier := do
  let t ← token .identifier name
  return ⟨name, t.position⟩

def typeName (name : String) : Build Token :=
  token ((TokenKind.ofTypeWord? name).getD .identifier) name

/-! ## Expressions -/

/-- A literal with a type, or one that the front end failed to type. The latter is the malformed
tree that an analysis can meet in practice. -/
def literal (kind : TokenKind) (raw : String) (given : Option Ty) : Build Expr := do
  let t ← token kind raw
  return .literal (← fresh) t given

def integer (value : Int) : Build Expr :=
  literal .integerLiteral (toString value) (some .int)

def float (value : Float) : Build Expr :=
  literal .floatLiteral (floatLayout.text value) (some .float)

def string (value : String) : Build Expr :=
  literal .stringLiteral value (some .string)

def boolean (value : Bool) : Build Expr :=
  literal .boolLiteral (if value then "true" else "false") (some .bool)

def var (name : String) : Build Expr := do
  let name ← identifier name
  let node ← fresh
  return .var (← fresh) node name

def call (name : String) (args : List Expr) : Build Expr := do
  let callee ← identifier name
  let node ← fresh
  return .call (← fresh) node callee args

def binary (op : BinaryOp) (lhs rhs : Expr) : Build Expr := do
  let t ← token op.kind op.text
  return .binary (← fresh) op t lhs rhs

def unary (op : UnaryOp) (operand : Expr) : Build Expr := do
  let t ← token op.kind op.text
  return .unary (← fresh) op t operand

/-- A conversion to a type whose name is already a token. -/
def castTo (target : Token) (operand : Expr) : Build Expr := do
  return .cast (← fresh) target operand

def cast (type : String) (operand : Expr) : Build Expr := do
  let target ← typeName type
  castTo target operand

/-- Parentheses make no token. -/
def group (inner : Expr) : Build Expr := do
  return .grouped (← fresh) inner

def format (text : String) (args : List Expr) : Build Expr := do
  let t ← token .stringLiteral text
  return .format (← fresh) t args

/-! ## Declarations -/

/-- A declaration of which the type's name and the name are already made. -/
def declare (isConst : Bool) (type : Token) (name : Identifier) : Build Decl := do
  return ⟨← fresh, isConst, type, name⟩

def decl (isConst : Bool) (type name : String) : Build Decl := do
  if isConst then
    let _ ← keyword .constWord
  let type ← typeName type
  let name ← identifier name
  declare isConst type name

/-- A function of which the return type's name and the name are already made. -/
def define (isIterator : Bool) (returns : Token) (name : Identifier) (params : List Decl)
    (body : Block) : Build Function := do
  return ⟨← fresh, isIterator, returns, name, params, body⟩

def function (isIterator : Bool) (returns name : String) (params : List Decl) (body : Block) :
    Build Function := do
  if isIterator then
    let _ ← keyword .iteratorWord
  let returns ← typeName returns
  let name ← identifier name
  define isIterator returns name params body

/-! ## Statements -/

def block (body : List Stmt) : Build Block := do
  let brace ← keyword .leftBrace
  return .mk (← fresh) brace body

def assign (target : String) (value : Expr) : Build Assignment := do
  let target ← identifier target
  return ⟨← fresh, target, value⟩

def conditional (cond : Expr) (body : Block) (otherwise : Else) : Build Conditional := do
  let t ← keyword .ifWord
  return .mk t cond body otherwise

def whileLoop (cond : Option Expr) (body : Block) : Build Stmt := do
  let t ← keyword .whileWord
  return .whileLoop t cond body

def doLoop (body : Block) (cond : Option Expr) : Build Stmt := do
  let t ← keyword .doWord
  return .doLoop t body cond

def ret (value : Option Expr) : Build Stmt := do
  let t ← keyword .returnWord
  return .ret t value

def yield (value : Option Expr) : Build Stmt := do
  let t ← keyword .yieldWord
  return .yield t value

def brk : Build Stmt := do
  let t ← keyword .breakWord
  return .brk t

def cont : Build Stmt := do
  let t ← keyword .continueWord
  return .cont t

/-- Inline text makes a token for its keyword only. -/
def inlineText (text : String) : Build Stmt := do
  let t ← keyword .inlineWord
  return .inline t text

/-! ## Programs -/

def importFile (path : String) : Build Import := do
  let t ← keyword .importWord
  return ⟨t, path⟩

def start (body : Block) : Build Start := do
  let t ← keyword .startWord
  return ⟨t, body⟩

def program (items : List Item) : Build Program := do
  let b ← get
  return ⟨← fresh, b.file, items⟩

end Build

end Semant
