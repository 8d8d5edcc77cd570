import Semant.Operator

/-!
# The tree of a program

A program is plain data. What the analysis finds out about a node (its type, its scope, the symbol
it stands for) is not written into the tree but kept beside it, in `Semant.Annotations`, under the
node's number. Nodes that carry such findings therefore have an `id`; a tree in which the same
number occurs twice is a tree that uses the same node in two places, which a front end may well do.

Three kinds of node open a scope: the program, a function (for its parameters) and a block.

A literal may carry the type that the front end gave it. It is part of the tree because the
analysis relies on it and never revises it.
-/

set_option autoImplicit false

namespace Semant

abbrev NodeId := Nat

/-- Every form has a number of its own. A variable and a call consist of two nodes, the expression,
which has a type, and inside it a `node` that has the symbol. The latter may be shared by several
expressions. -/
inductive Expr where
  /-- A literal, with the type the front end assigned to it, if any. -/
  | literal (id : NodeId) (token : Token) (given : Option Ty)
  | var (id node : NodeId) (name : Identifier)
  | call (id node : NodeId) (callee : Identifier) (args : List Expr)
  | binary (id : NodeId) (op : BinaryOp) (token : Token) (lhs rhs : Expr)
  | unary (id : NodeId) (op : UnaryOp) (token : Token) (operand : Expr)
  /-- A conversion to the type named by the token. -/
  | cast (id : NodeId) (target : Token) (operand : Expr)
  | grouped (id : NodeId) (inner : Expr)
  /-- A string with expressions to be formatted into it. -/
  | format (id : NodeId) (token : Token) (args : List Expr)
  deriving Inhabited

namespace Expr

def id : Expr → NodeId
  | literal id .. | var id .. | call id .. | binary id .. => id
  | unary id .. | cast id .. | grouped id .. | format id .. => id

/-- The node that has the symbol of a variable or a call. No other expression has one; for the sake
of a total function its own number is given. -/
def nameNode : Expr → NodeId
  | var _ node _ | call _ node _ _ => node
  | e => e.id

def position : Expr → Position
  | literal _ token _ => token.position
  | var _ _ name => name.position
  | call _ _ callee _ => callee.position
  | binary _ _ token _ _ => token.position
  | unary _ _ token _ => token.position
  | cast _ target _ => target.position
  | grouped _ inner => inner.position
  | format _ token _ => token.position

end Expr

structure Decl where
  id : NodeId
  isConst : Bool
  type : Token
  name : Identifier
  deriving Inhabited

def Decl.text (d : Decl) : String :=
  (if d.isConst then "const " else "") ++ d.type.raw ++ " " ++ d.name.name

structure DataDef where
  decl : Decl
  init : Option Expr
  deriving Inhabited

structure Assignment where
  id : NodeId
  target : Identifier
  value : Expr
  deriving Inhabited

mutual

inductive Stmt where
  | data (definition : DataDef)
  | assign (assignment : Assignment)
  | expr (value : Expr)
  | branch (conditional : Conditional)
  | whileLoop (keyword : Token) (cond : Option Expr) (body : Block)
  | doLoop (keyword : Token) (body : Block) (cond : Option Expr)
  | ret (keyword : Token) (value : Option Expr)
  | yield (keyword : Token) (value : Option Expr)
  | brk (keyword : Token)
  | cont (keyword : Token)
  /-- Text that is handed on to the code generator as it is. -/
  | inline (keyword : Token) (text : String)
  | block (body : Block)

inductive Block where
  | mk (id : NodeId) (brace : Token) (body : List Stmt)

inductive Conditional where
  | mk (keyword : Token) (cond : Expr) (body : Block) (otherwise : Else)

/-- What follows the block of an `if`. That nothing else may follow is part of the type, so only a
document can get it wrong. -/
inductive Else where
  | none
  | elseIf (next : Conditional)
  | block (body : Block)

end

instance : Inhabited Block := ⟨.mk default default []⟩

instance : Inhabited Stmt := ⟨.brk default⟩

instance : Inhabited Conditional := ⟨.mk default default default .none⟩

namespace Block

def id : Block → NodeId
  | mk id _ _ => id

def brace : Block → Token
  | mk _ brace _ => brace

def body : Block → List Stmt
  | mk _ _ body => body

def position (b : Block) : Position := b.brace.position

end Block

def Conditional.keyword : Conditional → Token
  | mk keyword _ _ _ => keyword

def Conditional.otherwise : Conditional → Else
  | mk _ _ _ otherwise => otherwise

/-- Where a message about a statement points. Data and assignments point at the name. -/
def Stmt.position : Stmt → Position
  | data definition => definition.decl.name.position
  | assign assignment => assignment.target.position
  | expr value => value.position
  | branch conditional => conditional.keyword.position
  | whileLoop keyword _ _ | doLoop keyword _ _ | ret keyword _ | yield keyword _ => keyword.position
  | brk keyword | cont keyword | inline keyword _ => keyword.position
  | block body => body.position

structure Function where
  id : NodeId
  isIterator : Bool
  returns : Token
  name : Identifier
  params : List Decl
  body : Block
  deriving Inhabited

structure Import where
  keyword : Token
  path : String
  deriving Inhabited

structure Start where
  keyword : Token
  body : Block
  deriving Inhabited

inductive Item where
  | imports (i : Import)
  | data (definition : DataDef)
  | function (f : Function)
  | start (s : Start)

structure Program where
  id : NodeId
  file : String
  items : List Item
  deriving Inhabited

end Semant
