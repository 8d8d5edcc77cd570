import Semant.Token

/-!
# Operators

The binary and unary operators, their spelling and the class of the token that stands for them.
The list `BinaryOp.all` is in declaration order and has every operator once, so reading an
operator is looking its spelling up.
-/

set_option autoImplicit false

namespace Semant

inductive BinaryOp where
  | add
  | sub
  | mul
  | div
  | mod
  | pow
  | lt
  | gt
  | le
  | ge
  | eq
  | ne
  | and
  | or
  deriving DecidableEq, Repr, Inhabited

namespace BinaryOp

def all : List BinaryOp :=
  [add, sub, mul, div, mod, pow, lt, gt, le, ge, eq, ne, and, or]

def text : BinaryOp → String
  | add => "+"
  | sub => "-"
  | mul => "*"
  | div => "/"
  | mod => "%"
  | pow => "^"
  | lt => "<"
  | gt => ">"
  | le => "<="
  | ge => ">="
  | eq => "=="
  | ne => "!="
  | and => "and"
  | or => "or"

def ofText? (text : String) : Option BinaryOp :=
  all.find? fun op => op.text == text

def kind : BinaryOp → TokenKind
  | add => .plus
  | sub => .minus
  | mul => .star
  | div => .slash
  | mod => .percent
  | pow => .caret
  | lt => .lt
  | gt => .gt
  | le => .le
  | ge => .ge
  | eq => .eq
  | ne => .ne
  | and => .and
  | or => .or

/-- Comparisons and the logical connectives yield a boolean whatever their operands are, as long as
neither is missing (`Rules.binary`). -/
def isBoolean : BinaryOp → Bool
  | lt | gt | le | ge | eq | ne | and | or => true
  | _ => false

end BinaryOp

inductive UnaryOp where
  | minus
  | not
  deriving DecidableEq, Repr, Inhabited

namespace UnaryOp

def all : List UnaryOp :=
  [minus, not]

def text : UnaryOp → String
  | minus => "-"
  | not => "not"

def ofText? (text : String) : Option UnaryOp :=
  all.find? fun op => op.text == text

def kind : UnaryOp → TokenKind
  | minus => .minus
  | not => .not

end UnaryOp

end Semant
