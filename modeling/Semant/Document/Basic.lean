import Semant.Token

/-!
# Program documents

A front end hands a parsed program over as a document. A document says the same as a tree but is
closer to the text: operators and types are words, and places are pairs of a line and a column. The
place of a declaration or a function is that of its first token; the place of its name may be
given, and otherwise follows from the layout (`Semant.Document.Lower`).
-/

set_option autoImplicit false

namespace Semant.Document

structure Place where
  line : UInt32
  column : UInt32
  deriving DecidableEq, Repr, Inhabited

inductive Expr where
  | literal (type value : String) (place : Place)
  | var (name : String) (place : Place)
  | call (name : String) (place : Place) (args : List Expr)
  | binary (op : String) (place : Place) (lhs rhs : Expr)
  | unary (op : String) (place : Place) (operand : Expr)
  | cast (type : String) (place : Place) (operand : Expr)
  | group (value : Expr)
  | format (text : String) (place : Place) (args : List Expr)
  deriving Inhabited

/-- A declaration of a document. As a parameter it has no use for an initial value, but may
carry one. -/
structure Decl where
  isConst : Bool
  type : String
  name : String
  place : Place
  namePlace : Option Place
  init : Option Expr
  deriving Inhabited

/-- What follows an `else` is any statement here. That it has to be an `if` or a block is noticed
when the tree is built. -/
inductive Stmt where
  | data (decl : Decl)
  | assign (name : String) (place : Place) (value : Expr)
  | expr (value : Expr)
  | branch (place : Place) (cond : Expr) (body : List Stmt) (otherwise : Option Stmt)
  | whileLoop (place : Place) (cond : Option Expr) (body : List Stmt)
  | doLoop (place : Place) (body : List Stmt) (cond : Option Expr)
  | ret (place : Place) (value : Option Expr)
  | yield (place : Place) (value : Option Expr)
  | brk (place : Place)
  | cont (place : Place)
  | inline (place : Place) (text : String)
  | block (place : Place) (body : List Stmt)
  deriving Inhabited

inductive Item where
  | imports (path : String) (place : Place)
  | data (decl : Decl)
  | function (isIterator : Bool) (returns name : String) (place : Place)
      (namePlace : Option Place) (params : List Decl) (body : List Stmt)
  | start (place : Place) (body : List Stmt)
  deriving Inhabited

end Semant.Document

namespace Semant

structure Document where
  file : String
  items : List Document.Item
  deriving Inhabited

end Semant
