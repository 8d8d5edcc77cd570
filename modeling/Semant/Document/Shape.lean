import Semant.Document.Basic
import Semant.Json.Value

/-!
# The shape of documents

Every node of a document is written in one of two ways: as an object with a tag and named fields in
any order, or as an array of the tag and the fields in a fixed order. This file lists the tags and,
for each, its fields in that order with the role of their values. The tables are the whole
description of the format; reading (`Semant.Document.Reading`) only follows them.

A field that may be absent has a value that stands for its absence. Only a field whose role is
optional may also be `null`.
-/

set_option autoImplicit false

namespace Semant.Document

inductive Role where
  | text
  | flag
  | place
  | optionalPlace
  | expr
  | optionalExpr
  | exprs
  | optionalStmt
  | stmts
  | decls
  deriving DecidableEq, Repr

/-- The fields of a node in the order in which an array has them. In an object any order will do. -/
abbrev Shape := List (String × Role)

inductive ExprTag where
  | literal
  | var
  | call
  | binary
  | unary
  | cast
  | group
  | format
  deriving DecidableEq, Repr

namespace ExprTag

/-- Every tag, in the order in which they are numbered. A tag inside an item may be given by its
number. -/
def all : List ExprTag := [literal, var, call, binary, unary, cast, group, format]

def name : ExprTag → String
  | literal => "literal"
  | var => "var"
  | call => "call"
  | binary => "binary"
  | unary => "unary"
  | cast => "cast"
  | group => "group"
  | format => "format"

def shape : ExprTag → Shape
  | literal => [("type", .text), ("value", .text), ("at", .place)]
  | var => [("name", .text), ("at", .place)]
  | call => [("name", .text), ("at", .place), ("args", .exprs)]
  | binary => [("op", .text), ("at", .place), ("lhs", .expr), ("rhs", .expr)]
  | unary => [("op", .text), ("at", .place), ("operand", .expr)]
  | cast => [("type", .text), ("at", .place), ("operand", .expr)]
  | group => [("value", .expr)]
  | format => [("text", .text), ("at", .place), ("args", .exprs)]

end ExprTag

def declShape : Shape :=
  [("const", .flag), ("type", .text), ("name", .text), ("at", .place),
    ("name_at", .optionalPlace), ("init", .optionalExpr)]

inductive StmtTag where
  | data
  | assign
  | expr
  | branch
  | whileLoop
  | doLoop
  | ret
  | yield
  | brk
  | cont
  | inline
  | block
  deriving DecidableEq, Repr

namespace StmtTag

def all : List StmtTag :=
  [data, assign, expr, branch, whileLoop, doLoop, ret, yield, brk, cont, inline, block]

def name : StmtTag → String
  | data => "data"
  | assign => "assign"
  | expr => "expr"
  | branch => "if"
  | whileLoop => "while"
  | doLoop => "do"
  | ret => "return"
  | yield => "yield"
  | brk => "break"
  | cont => "continue"
  | inline => "inline"
  | block => "block"

def shape : StmtTag → Shape
  | data => declShape
  | assign => [("name", .text), ("at", .place), ("value", .expr)]
  | expr => [("value", .expr)]
  | branch => [("at", .place), ("cond", .expr), ("then", .stmts), ("else", .optionalStmt)]
  | whileLoop => [("at", .place), ("cond", .optionalExpr), ("body", .stmts)]
  | doLoop => [("at", .place), ("body", .stmts), ("cond", .optionalExpr)]
  | ret => [("at", .place), ("value", .optionalExpr)]
  | yield => [("at", .place), ("value", .optionalExpr)]
  | brk => [("at", .place)]
  | cont => [("at", .place)]
  | inline => [("at", .place), ("text", .text)]
  | block => [("at", .place), ("body", .stmts)]

end StmtTag

inductive ItemTag where
  | imports
  | data
  | function
  | start
  deriving DecidableEq, Repr

namespace ItemTag

/-- Every tag. Items are never called by a number, so the order says nothing. -/
def all : List ItemTag := [imports, data, function, start]

def name : ItemTag → String
  | imports => "import"
  | data => "data"
  | function => "function"
  | start => "start"

def shape : ItemTag → Shape
  | imports => [("path", .text), ("at", .place)]
  | data => declShape
  | function =>
    [("iterator", .flag), ("returns", .text), ("name", .text), ("at", .place),
      ("name_at", .optionalPlace), ("parameters", .decls), ("body", .stmts)]
  | start => [("at", .place), ("body", .stmts)]

def ofName (name : String) : Except Json.Fault ItemTag :=
  match all.find? fun tag => tag.name == name with
  | some tag => .ok tag
  | none => .error (.shape (.unknownVariant name))

end ItemTag

end Semant.Document
