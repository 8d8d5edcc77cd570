import Semant.Json.Value

/-!
# Writing values

Values are written with one field or element to a line and two blanks of indentation for every
container around it. In strings only what has to be escaped is.
-/

set_option autoImplicit false

namespace Semant.Json

def hexDigit (n : Nat) : Char :=
  if n < 10 then Char.ofNat ('0'.toNat + n) else Char.ofNat ('a'.toNat + n - 10)

/-- Quotes, backslashes and control characters are escaped, and nothing else is. A control character
without a letter of its own has two zeros in front of its two digits. -/
def escapeChar (c : Char) : List Char :=
  match c with
  | '"' => ['\\', '"']
  | '\\' => ['\\', '\\']
  | '\x08' => ['\\', 'b']
  | '\x0c' => ['\\', 'f']
  | '\n' => ['\\', 'n']
  | '\r' => ['\\', 'r']
  | '\t' => ['\\', 't']
  | c =>
    if c < ' ' then ['\\', 'u', '0', '0', hexDigit (c.toNat / 16), hexDigit (c.toNat % 16)]
    else [c]

def quoted (s : String) : String :=
  "\"" ++ String.ofList (s.toList.flatMap escapeChar) ++ "\""

def newline (depth : Nat) : String :=
  "\n" ++ String.ofList (List.replicate (2 * depth) ' ')

mutual

/-- An empty container stays on its line. -/
def prettyAt (depth : Nat) : Json → String
  | .null => "null"
  | .bool b => if b then "true" else "false"
  | .number n => n.text
  | .string s => quoted s
  | .array [] => "[]"
  | .array (first :: rest) =>
    "[" ++ newline (depth + 1) ++ prettyAt (depth + 1) first ++ prettyElements (depth + 1) rest
      ++ newline depth ++ "]"
  | .object [] => "\x7b\x7d"
  | .object ((key, value) :: rest) =>
    "\x7b" ++ newline (depth + 1) ++ quoted key ++ ": " ++ prettyAt (depth + 1) value
      ++ prettyFields (depth + 1) rest ++ newline depth ++ "\x7d"

def prettyElements (depth : Nat) : List Json → String
  | [] => ""
  | value :: rest => "," ++ newline depth ++ prettyAt depth value ++ prettyElements depth rest

def prettyFields (depth : Nat) : List (String × Json) → String
  | [] => ""
  | (key, value) :: rest =>
    "," ++ newline depth ++ quoted key ++ ": " ++ prettyAt depth value ++ prettyFields depth rest

end

def pretty (value : Json) : String := prettyAt 0 value

end Semant.Json
