/-!
# Numerals

A number in a JSON text is kept as it is written. Two questions are asked of it: whether it is a
plain natural number, and whether it fits into a double.

The second is answered in whole numbers. Digits are taken into a significand of 64 bits as long as
they fit and are counted into the exponent after that. The significand and the power of ten are
rounded to doubles, and the numeral is too large if their product is nearer to `2 ^ 1024` than to
any double. A negative exponent never makes a number too large.
-/

set_option autoImplicit false

namespace Semant.Json

/-- A number as it is written. Nothing is computed before somebody asks, as a number that is only
skimmed may be of any size. -/
structure Numeral where
  negative : Bool := false
  /-- The digits in front of the point. -/
  whole : List Char
  /-- The digits behind the point. -/
  fraction : Option (List Char) := none
  /-- The digits of the exponent and whether it is negative. -/
  exponent : Option (Bool × List Char) := none
  deriving DecidableEq, Repr, Inhabited

namespace Numeral

def digitValue (c : Char) : Nat := c.toNat - '0'.toNat

def digitsValue (digits : List Char) : Nat :=
  digits.foldl (fun n c => 10 * n + digitValue c) 0

/-- Only what is written without sign, point and exponent is a natural number: neither `1.0` nor
`-0` is one. -/
def toNat? (n : Numeral) : Option Nat :=
  match n with
  | ⟨false, whole, none, none⟩ => some (digitsValue whole)
  | _ => none

def ofNat (n : Nat) : Numeral := { whole := Nat.toDigits 10 n }

/-- Takes digits into a significand of 64 bits until one does not fit, and returns the rest. -/
def absorb (significand : Nat) : List Char → Nat × List Char
  | [] => (significand, [])
  | c :: rest =>
    let next := 10 * significand + digitValue c
    if next < 2 ^ 64 then absorb next rest else (significand, c :: rest)

/-- The significand and the power of ten that belongs to it. Digits in front of the point that did
not fit make the power larger, digits behind it that did fit make it smaller, and digits behind it
that did not fit are lost. -/
def parts (n : Numeral) : Nat × Int :=
  let (front, dropped) := absorb 0 n.whole
  let fraction := n.fraction.getD []
  let (significand, unused) := absorb front fraction
  let exponent : Int := match n.exponent with
    | none => 0
    | some (negative, digits) =>
      if negative then -(digitsValue digits : Int) else digitsValue digits
  (significand, (dropped.length : Int) - (fraction.length - unused.length : Nat) + exponent)

/-- The double nearest to a natural number; of two equally near ones the even one. -/
def roundToDouble (n : Nat) : Nat :=
  let shift := Nat.log2 n + 1 - 53
  let unit := Nat.pow 2 shift
  let (q, r) := (n / unit, n % unit)
  (if unit < 2 * r ∨ (unit = 2 * r ∧ q % 2 = 1) then q + 1 else q) * unit

/-- Whether the numeral has a finite double for its value. The largest power of ten with a double is
the 308th; for a significand other than zero a larger one is too large at once. -/
def fitsDouble (n : Numeral) : Bool :=
  let (significand, exponent) := n.parts
  if significand = 0 ∨ exponent < 0 then true
  else if 308 < exponent then false
  else
    roundToDouble significand * roundToDouble (Nat.pow 10 exponent.toNat)
      < Nat.pow 2 1024 - Nat.pow 2 970

def text (n : Numeral) : String :=
  (if n.negative then "-" else "") ++ String.ofList n.whole
    ++ (match n.fraction with
      | some digits => "." ++ String.ofList digits
      | none => "")
    ++ (match n.exponent with
      | some (negative, digits) => "e" ++ (if negative then "-" else "") ++ String.ofList digits
      | none => "")

end Numeral

end Semant.Json
