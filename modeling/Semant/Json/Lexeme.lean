import Semant.Json.Fault
import Semant.Json.Numeral

/-!
# Lexemes

A JSON text is first cut into lexemes: brackets, commas, words, numbers and strings. What is wrong
with a lexeme matters only if a reader gets that far, so faults are lexemes too. Where a value is
wanted a broken lexeme gives its fault; where a comma or a bracket is wanted it is simply something
else.

Values can be read in full or merely skimmed, and the two differ in what they mind. A skimmed
string may hold halves of surrogate pairs and a skimmed number may be of any size, but a number cut
off by the end of the text is malformed when skimmed and ended when read. Lexemes keep what is
needed to tell.
-/

set_option autoImplicit false

namespace Semant.Json

/-- A piece of a string: a character, or a 16-bit unit written as an escape. Which units make a
character is settled when the string is read in full, since skimming does not ask. -/
inductive StringPart where
  | char (c : Char)
  | unit (n : Nat)
  deriving DecidableEq, Repr

inductive StringEnd where
  | closed
  /-- The text ends before the closing quote. -/
  | ended
  /-- A control character or an unknown escape follows. -/
  | broken
  deriving DecidableEq, Repr

inductive Lexeme where
  | openObject
  | closeObject
  | openArray
  | closeArray
  | colon
  | comma
  | null
  | bool (value : Bool)
  | number (n : Numeral)
  | string (parts : List StringPart) (stop : StringEnd)
  /-- Something that is no lexeme, with its fault when read in full and when skimmed. -/
  | broken (full skimmed : Fault)
  deriving DecidableEq, Repr

/-! ## Characters -/

def isBlank (c : Char) : Bool :=
  c = ' ' || c = '\n' || c = '\t' || c = '\r'

def isDecimal (c : Char) : Bool :=
  '0' ≤ c && c ≤ '9'

def hexValue? (c : Char) : Option Nat :=
  if isDecimal c then some (c.toNat - '0'.toNat)
  else if 'a' ≤ c && c ≤ 'f' then some (c.toNat - 'a'.toNat + 10)
  else if 'A' ≤ c && c ≤ 'F' then some (c.toNat - 'A'.toNat + 10)
  else none

def unitValue? (a b c d : Char) : Option Nat := do
  return 4096 * (← hexValue? a) + 256 * (← hexValue? b) + 16 * (← hexValue? c) + (← hexValue? d)

def escaped? : Char → Option Char
  | '"' => some '"'
  | '\\' => some '\\'
  | '/' => some '/'
  | 'b' => some '\x08'
  | 'f' => some '\x0c'
  | 'n' => some '\n'
  | 'r' => some '\r'
  | 't' => some '\t'
  | _ => none

def byteLength (cs : List Char) : Nat :=
  cs.foldr (fun c bytes => c.utf8Size + bytes) 0

/-! ## Strings -/

/-- Cuts a text behind an opening quote into the pieces of the string and what follows it. A unit
needs four more bytes of text; if they are there they have to be digits. So a text with fewer than
four bytes left has ended, while four bytes in fewer characters are broken. -/
def scanString : List Char → List StringPart × StringEnd × List Char
  | [] => ([], .ended, [])
  | '"' :: rest => ([], .closed, rest)
  | '\\' :: [] => ([], .ended, [])
  | '\\' :: 'u' :: a :: b :: c :: d :: rest =>
    match unitValue? a b c d with
    | none => ([], .broken, [])
    | some n =>
      let (parts, stop, rest) := scanString rest
      (.unit n :: parts, stop, rest)
  | '\\' :: 'u' :: rest => ([], if byteLength rest < 4 then .ended else .broken, [])
  | '\\' :: c :: rest =>
    match escaped? c with
    | none => ([], .broken, [])
    | some c =>
      let (parts, stop, rest) := scanString rest
      (.char c :: parts, stop, rest)
  | c :: rest =>
    if c < ' ' then ([], .broken, [])
    else
      let (parts, stop, rest) := scanString rest
      (.char c :: parts, stop, rest)

def isLead (n : Nat) : Bool := 0xD800 ≤ n && n ≤ 0xDBFF

def isTrail (n : Nat) : Bool := 0xDC00 ≤ n && n ≤ 0xDFFF

def pairChar (lead trail : Nat) : Char :=
  Char.ofNat (0x10000 + 1024 * (lead - 0xD800) + (trail - 0xDC00))

/-- What a string means. Halves of surrogate pairs have to stand together. A first half at the end
of the text is not at fault yet, as the second might have followed. -/
def stringText : List StringPart → StringEnd → Except Fault (List Char)
  | [], .closed => .ok []
  | [], .ended => .error .ended
  | [], .broken => .error .malformed
  | .char c :: rest, stop => (stringText rest stop).map (c :: ·)
  | .unit n :: [], stop =>
    if isTrail n then .error .malformed
    else if isLead n then .error (if stop = .ended then .ended else .malformed)
    else (stringText [] stop).map (Char.ofNat n :: ·)
  | .unit n :: .char c :: rest, stop =>
    if isTrail n || isLead n then .error .malformed
    else (stringText (.char c :: rest) stop).map (Char.ofNat n :: ·)
  | .unit n :: .unit m :: rest, stop =>
    if isTrail n then .error .malformed
    else if isLead n then
      if isTrail m then (stringText rest stop).map (pairChar n m :: ·) else .error .malformed
    else (stringText (.unit m :: rest) stop).map (Char.ofNat n :: ·)

def skimString : StringEnd → Except Fault Unit
  | .closed => .ok ()
  | .ended => .error .ended
  | .broken => .error .malformed

/-! ## Words and numbers -/

def scanWord (lexeme : Lexeme) : List Char → List Char → Lexeme × List Char
  | [], rest => (lexeme, rest)
  | _ :: _, [] => (.broken .ended .ended, [])
  | c :: word, d :: rest =>
    if c = d then scanWord lexeme word rest else (.broken .malformed .malformed, [])

/-- Digits are missing in front of `rest`. At the end of the text this is where reading in full and
skimming part: the one says that the text has ended, the other that it is malformed. -/
def missingDigits (rest : List Char) : Lexeme × List Char :=
  (.broken (if rest.isEmpty then .ended else .malformed) .malformed, [])

def scanExponent (n : Numeral) (cs : List Char) : Lexeme × List Char :=
  match cs with
  | c :: rest =>
    if c = 'e' || c = 'E' then
      let (negative, rest) := match rest with
        | '+' :: rest => (false, rest)
        | '-' :: rest => (true, rest)
        | rest => (false, rest)
      let (digits, rest) := rest.span isDecimal
      if digits.isEmpty then missingDigits rest
      else (.number { n with exponent := some (negative, digits) }, rest)
    else (.number n, cs)
  | [] => (.number n, cs)

def scanFraction (n : Numeral) (cs : List Char) : Lexeme × List Char :=
  match cs with
  | '.' :: rest =>
    let (digits, rest) := rest.span isDecimal
    if digits.isEmpty then missingDigits rest
    else scanExponent { n with fraction := some digits } rest
  | _ => scanExponent n cs

/-- Cuts a number off behind its sign. A zero is not followed by other digits. -/
def scanNumber (negative : Bool) (cs : List Char) : Lexeme × List Char :=
  let (digits, rest) := cs.span isDecimal
  match digits with
  | [] => missingDigits rest
  | '0' :: _ :: _ => (.broken .malformed .malformed, [])
  | digits => scanFraction { negative, whole := digits } rest

/-! ## Texts -/

def scanLexeme (c : Char) (rest : List Char) : Lexeme × List Char :=
  match c with
  | '\x7b' => (.openObject, rest)
  | '\x7d' => (.closeObject, rest)
  | '[' => (.openArray, rest)
  | ']' => (.closeArray, rest)
  | ':' => (.colon, rest)
  | ',' => (.comma, rest)
  | 'n' => scanWord .null ['u', 'l', 'l'] rest
  | 't' => scanWord (.bool true) ['r', 'u', 'e'] rest
  | 'f' => scanWord (.bool false) ['a', 'l', 's', 'e'] rest
  | '-' => scanNumber true rest
  | '"' =>
    let (parts, stop, rest) := scanString rest
    (.string parts stop, rest)
  | c =>
    if isDecimal c then scanNumber false (c :: rest) else (.broken .malformed .malformed, [])

/-- `fuel` counts characters. Every lexeme takes one at least, so the length of the text is enough,
and a broken lexeme takes all that is left. -/
def lexemesUpTo : Nat → List Char → List Lexeme
  | 0, _ => []
  | _ + 1, [] => []
  | fuel + 1, c :: rest =>
    if isBlank c then lexemesUpTo fuel rest
    else
      let (lexeme, rest) := scanLexeme c rest
      lexeme :: lexemesUpTo fuel rest

def lexemes (text : String) : List Lexeme :=
  lexemesUpTo text.length text.toList

end Semant.Json
