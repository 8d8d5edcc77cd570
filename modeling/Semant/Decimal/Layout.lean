import Semant.Decimal.Shortest

/-!
# Writing a double

Which digits a double is written with is settled by `Semant.Decimal.Shortest`. How they are laid
out is a choice, and a `Layout` is one such choice: which magnitudes are written with a point in
its place and which with an exponent.
-/

set_option autoImplicit false

namespace Semant.Decimal

/-- The exponents of the leading digit between which a number is written without an exponent. -/
structure Layout where
  least : Int
  most : Int
  deriving Repr

/-- Writes a positive decimal. Without an exponent there is at least one digit on either side of
the point; with one there is a point only if more than one digit stands in front of it. -/
def Layout.write (layout : Layout) (d : Digits) : String :=
  let digits := toString d.value
  let count := digits.length
  let lead : Int := d.scale + count - 1
  if layout.least ≤ lead ∧ lead ≤ layout.most then
    if 0 ≤ d.scale then
      digits ++ String.ofList (List.replicate d.scale.toNat '0') ++ ".0"
    else if 0 ≤ lead then
      let whole := lead.toNat + 1
      String.ofList (digits.toList.take whole) ++ "." ++ String.ofList (digits.toList.drop whole)
    else
      "0." ++ String.ofList (List.replicate ((-lead).toNat - 1) '0') ++ digits
  else
    let fraction := digits.toList.drop 1
    String.ofList (digits.toList.take 1)
      ++ (if fraction.isEmpty then "" else "." ++ String.ofList fraction)
      ++ "e" ++ toString lead

/-- Writes any double. Zero keeps its sign, which the digits of its decimal could not show. -/
def Layout.text (layout : Layout) (value : Float) : String :=
  let bits := value.toBits.toNat
  let sign := if bits / Nat.pow 2 63 = 1 then "-" else ""
  let biased := bits / Nat.pow 2 52 % Nat.pow 2 11
  let fraction := bits % Nat.pow 2 52
  -- what has no digits is written here: infinities, what is no number, and zero
  if biased = 2047 then
    if fraction = 0 then sign ++ "inf" else "NaN"
  else if biased = 0 ∧ fraction = 0 then
    sign ++ "0.0"
  else
    sign ++ layout.write (Interval.ofBits biased fraction).shortest

end Semant.Decimal
