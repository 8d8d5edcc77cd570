/-!
# The shortest decimal of a double

A finite double is `m · 2 ^ q` for whole numbers `m` and `q`, and every real number in a small
interval around it rounds back to it. `shortest` finds the decimal with the fewest significant
digits in that interval and, among those, the one nearest to the double. All of it is arithmetic
on whole numbers, so nothing is lost on the way.

The search is by number of digits. The candidates with `n` digits are the two neighbours of the
value on the grid of multiples of a power of ten, and if any point of that grid lies in the
interval then so does one of the neighbours.
-/

set_option autoImplicit false

namespace Semant.Decimal

structure Digits where
  value : Nat
  scale : Int
  deriving DecidableEq, Repr

/-- A positive double and the interval that rounds to it, all four times their value:
`mid = 4 m`, and the ends are `mid - below` and `mid + 2`, each times `2 ^ (exponent)`. The ends
belong to the interval when `closed`. -/
structure Interval where
  mid : Nat
  below : Nat
  exponent : Int
  closed : Bool
  deriving Repr

/-- The interval of the double with fraction bits `fraction` and exponent bits `biased`. Below a
power of two the doubles are twice as dense, so the interval is shorter on that side. -/
def Interval.ofBits (biased fraction : Nat) : Interval :=
  -- without a leading bit there is no power of two either, and both sides are alike
  if biased = 0 then
    { mid := 4 * fraction, below := 2, exponent := -1076, closed := fraction % 2 = 0 }
  else
    { mid := 4 * (Nat.pow 2 52 + fraction)
      below := if fraction = 0 ∧ 1 < biased then 1 else 2
      exponent := (biased : Int) - 1077
      closed := fraction % 2 = 0 }

/-- The whole number `n · 2 ^ e · 10 ^ d`, rounded down, as a numerator and a denominator. -/
def scaled (n : Nat) (e d : Int) : Nat × Nat :=
  (n * Nat.pow 2 e.toNat * Nat.pow 10 d.toNat, Nat.pow 2 (-e).toNat * Nat.pow 10 (-d).toNat)

/-- Whether the point `k · 10 ^ scale` lies in the interval. Both sides are multiplied by `den`
instead of being divided, so the comparison is one of whole numbers. -/
def Interval.contains (i : Interval) (k : Nat) (scale : Int) : Bool :=
  let (num, den) := scaled 1 (-i.exponent) scale
  let point := k * num
  let low := (i.mid - i.below) * den
  let high := (i.mid + 2) * den
  if i.closed then low ≤ point && point ≤ high else low < point && point < high

/-- The largest `e ≤ start` with `10 ^ e` at most the value of the interval's middle, looking at
`fuel` candidates. -/
def Interval.magnitude (i : Interval) : Nat → Int → Int
  | 0, start => start
  | fuel + 1, start =>
    let (num, den) := scaled i.mid i.exponent (-start)
    if den ≤ num then start else i.magnitude fuel (start - 1)

/-- The candidate with the given number of digits, if one lies in the interval. Of two the nearer
is taken, and of two equally near ones the larger. -/
def Interval.candidate (i : Interval) (scale : Int) : Option Nat :=
  let (num, den) := scaled i.mid i.exponent (-scale)
  let down := num / den
  let up := down + 1
  -- zero has no leading digit and is no candidate, even where rounding would take it
  match decide (0 < down) && i.contains down scale, i.contains up scale with
  | true, true => some (if 2 * (num - down * den) < den then down else up)
  | true, false => some down
  | false, true => some up
  | false, false => none

/-- Searches for the fewest digits, starting with `count`. The grids get finer with every digit, so
the first grid that has a point in the interval is the coarsest one. -/
def Interval.search (i : Interval) (magnitude : Int) : Nat → Nat → Digits
  | 0, _ => ⟨0, 0⟩
  | fuel + 1, count =>
    let scale := magnitude - count + 1
    match i.candidate scale with
    | some k => ⟨k, scale⟩
    | none => i.search magnitude fuel (count + 1)

def Digits.trim : Nat → Digits → Digits
  | 0, d => d
  | fuel + 1, d =>
    if d.value ≠ 0 ∧ d.value % 10 = 0 then
      Digits.trim fuel ⟨d.value / 10, d.scale + 1⟩
    else d

/-- The shortest decimal in the interval. Seventeen digits tell any two doubles apart. -/
def Interval.shortest (i : Interval) : Digits :=
  (i.search (i.magnitude 700 310) 18 1).trim 20

end Semant.Decimal
