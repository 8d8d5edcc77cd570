import Semant.Ty

/-!
# Tokens and positions

A token is a piece of source text with the lexical class it was given and the place where it
stands. Lines and columns are 32-bit words: a front end may hand over any of their values, and
moving a column past the largest one is an error of the layout (`Semant.Tree.Build`), never a wrap
to the left margin.

Only two of the classes matter to the analysis itself. The five *type words* name a built-in
type, and an identifier in the place of a type names a struct (`Token.type?`); a token of any
other class in that place is a malformed tree.
-/

set_option autoImplicit false

namespace Semant

structure Position where
  file : String
  line : UInt32
  column : UInt32
  deriving DecidableEq, Repr, Inhabited

def Position.text (p : Position) : String :=
  p.file ++ ":" ++ toString p.line.toNat ++ ":" ++ toString p.column.toNat

inductive TokenKind where
  | integerType
  | floatType
  | stringType
  | boolType
  | nothingType
  | identifier
  | integerLiteral
  | floatLiteral
  | stringLiteral
  | boolLiteral
  | plus
  | minus
  | star
  | slash
  | percent
  | caret
  | lt
  | gt
  | le
  | ge
  | eq
  | ne
  | and
  | or
  | not
  | assign
  | constWord
  | iteratorWord
  | importWord
  | startWord
  | inlineWord
  | returnWord
  | breakWord
  | continueWord
  | yieldWord
  | ifWord
  | elseWord
  | whileWord
  | doWord
  | leftBrace
  deriving DecidableEq, Repr, Inhabited

namespace TokenKind

/-- The spelling of a keyword or sign, and a description of the classes that have no fixed one. Only
the former become the text of a token (`Build.keyword`). -/
def text : TokenKind → String
  | integerType => "int"
  | floatType => "float"
  | stringType => "string"
  | boolType => "bool"
  | nothingType => "nothing"
  | identifier => "identifier"
  | integerLiteral => "integer literal"
  | floatLiteral => "float literal"
  | stringLiteral => "string literal"
  | boolLiteral => "boolean literal"
  | plus => "+"
  | minus => "-"
  | star => "*"
  | slash => "/"
  | percent => "%"
  | caret => "^"
  | lt => "<"
  | gt => ">"
  | le => "<="
  | ge => ">="
  | eq => "=="
  | ne => "!="
  | and => "and"
  | or => "or"
  | not => "not"
  | assign => "="
  | constWord => "const"
  | iteratorWord => "iterator"
  | importWord => "import"
  | startWord => "start"
  | inlineWord => "inline"
  | returnWord => "return"
  | breakWord => "break"
  | continueWord => "continue"
  | yieldWord => "yield"
  | ifWord => "if"
  | elseWord => "else"
  | whileWord => "while"
  | doWord => "do"
  | leftBrace => "\x7b"

def ofTypeWord? : String → Option TokenKind
  | "int" => some integerType
  | "float" => some floatType
  | "string" => some stringType
  | "bool" => some boolType
  | "nothing" => some nothingType
  | _ => none

def builtin? : TokenKind → Option Ty
  | integerType => some .int
  | floatType => some .float
  | stringType => some .string
  | boolType => some .bool
  | nothingType => some .nothing
  | _ => none

def isTypeWord (kind : TokenKind) : Bool :=
  kind.builtin?.isSome

end TokenKind

structure Token where
  kind : TokenKind
  raw : String
  position : Position
  deriving DecidableEq, Repr, Inhabited

/-- The type a token names when it stands in the place of a type. It is the class that decides, not
the text: an identifier spelled `int` names a struct. -/
def Token.type? (token : Token) : Option Ty :=
  match token.kind with
  | .identifier => some (.struct token.raw)
  | kind => kind.builtin?

structure Identifier where
  name : String
  position : Position
  deriving DecidableEq, Repr, Inhabited

end Semant
