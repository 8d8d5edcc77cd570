import Mathlib.Data.List.TakeDrop
import Semant.Json.Value

/-!
# JSON texts

What it is to write a value as JSON is said here without a reader: `Json.Written` lists all spellings of
a value, with blanks wherever they may stand, every way to escape a character, and all forms of a
number. The reader first cuts a text into lexemes, and this file ends with the lexemes that a spelling
gives (`Json.Lexed`). Only the escapes and the places of brackets and commas are left in them.

A value is cut off a text before whatever follows it is looked at, with one exception: a number ends
where its next character cannot be part of it. In a JSON text a blank, a comma, a bracket or the end of
the text follows (`Ends`).
-/

set_option autoImplicit false

namespace Semant.Json

/-! ## Spellings -/

/-- White space. -/
def Blank (cs : List Char) : Prop := ∀ c ∈ cs, c ∈ [' ', '\n', '\t', '\r']

/-- One or more decimal digits. -/
def Digits (cs : List Char) : Prop := cs ≠ [] ∧ ∀ c ∈ cs, '0' ≤ c ∧ c ≤ '9'

/-- Letters that stand for a character behind a backslash. -/
def shortEscapes : List (Char × Char) :=
  [('"', '"'), ('\\', '\\'), ('/', '/'), ('b', '\x08'), ('f', '\x0c'), ('n', '\n'), ('r', '\r'),
    ('t', '\t')]

/-- A hexadecimal digit of either case. -/
def HexDigit (value : Nat) (c : Char) : Prop :=
  "0123456789abcdef".toList[value]? = some c ∨ "0123456789ABCDEF".toList[value]? = some c

/-- A 16-bit unit as four hexadecimal digits behind a backslash and a `u`. -/
def UnitWritten (n : Nat) (cs : List Char) : Prop :=
  ∃ a b c d, HexDigit (n / 4096) a ∧ HexDigit (n / 256 % 16) b ∧ HexDigit (n / 16 % 16) c ∧
    HexDigit (n % 16) d ∧ cs = ['\\', 'u', a, b, c, d]

/-- The first unit of a surrogate pair. -/
def leadUnit (c : Char) : Nat := 0xD800 + (c.toNat - 0x10000) / 1024

/-- The second unit of a surrogate pair. -/
def trailUnit (c : Char) : Nat := 0xDC00 + (c.toNat - 0x10000) % 1024

/-- The ways to write a character in a string. Outside the first 65536 characters an escape has two
units, a surrogate pair. -/
inductive CharWritten (c : Char) : List Char → Prop
  | plain (hcontrol : ' ' ≤ c) (hquote : c ≠ '"') (hbackslash : c ≠ '\\') : CharWritten c [c]
  | short {letter : Char} (h : (letter, c) ∈ shortEscapes) : CharWritten c ['\\', letter]
  | unit {cs : List Char} (hc : c.toNat < 0x10000) (h : UnitWritten c.toNat cs) : CharWritten c cs
  | pair {lead trail : List Char} (hc : 0x10000 ≤ c.toNat)
      (hlead : UnitWritten (leadUnit c) lead) (htrail : UnitWritten (trailUnit c) trail) :
      CharWritten c (lead ++ trail)

/-- The ways to write characters one after the other. -/
inductive CharsWritten : List Char → List Char → Prop
  | nil : CharsWritten [] []
  | cons {c : Char} {s front rest : List Char} (hc : CharWritten c front) (hs : CharsWritten s rest) :
      CharsWritten (c :: s) (front ++ rest)

/-- A string in quotes. -/
def StringWritten (s : String) (cs : List Char) : Prop :=
  ∃ inside, CharsWritten s.toList inside ∧ cs = '"' :: (inside ++ ['"'])

namespace Numeral

/-- The parts of the numeral are digits, and no zero stands in front of another digit. -/
structure WellFormed (n : Numeral) : Prop where
  whole : Digits n.whole
  zero : n.whole.head? = some '0' → n.whole = ['0']
  fraction : ∀ digits, n.fraction = some digits → Digits digits
  exponent : ∀ negative digits, n.exponent = some (negative, digits) → Digits digits

def signText (n : Numeral) : List Char := if n.negative then ['-'] else []

def fractionText (n : Numeral) : List Char :=
  match n.fraction with
  | none => []
  | some digits => '.' :: digits

/-- The exponent may begin with a letter of either case and may have a plus sign. -/
def ExponentWritten (n : Numeral) (cs : List Char) : Prop :=
  match n.exponent with
  | none => cs = []
  | some (negative, digits) =>
    ∃ letter ∈ ['e', 'E'], ∃ sign ∈ if negative then [['-']] else [[], ['+']],
      cs = letter :: (sign ++ digits)

/-- The ways to write a numeral. -/
def Written (n : Numeral) (cs : List Char) : Prop :=
  n.WellFormed ∧ ∃ exponent, n.ExponentWritten exponent ∧
    cs = n.signText ++ (n.whole ++ (n.fractionText ++ exponent))

end Numeral

/-- With blanks on both sides. -/
def Padded (written : List Char → Prop) (cs : List Char) : Prop :=
  ∃ before core after, Blank before ∧ written core ∧ Blank after ∧ cs = before ++ (core ++ after)

/-- A field of an object. -/
def FieldWritten (key : String) (written : List Char → Prop) (cs : List Char) : Prop :=
  ∃ front back, Padded (StringWritten key) front ∧ Padded written back ∧ cs = front ++ ':' :: back

mutual

/-- The ways to write a value. -/
def Written : Json → List Char → Prop
  | .null, cs => cs = "null".toList
  | .bool b, cs => cs = (if b then "true" else "false").toList
  | .number n, cs => n.Written cs
  | .string s, cs => StringWritten s cs
  | .array [], cs => ∃ blank, Blank blank ∧ cs = '[' :: (blank ++ [']'])
  | .array (first :: rest), cs =>
    ∃ front more, Padded first.Written front ∧ WrittenElements rest more ∧
      cs = '[' :: (front ++ (more ++ [']']))
  | .object [], cs => ∃ blank, Blank blank ∧ cs = '\x7b' :: (blank ++ ['\x7d'])
  | .object ((key, value) :: rest), cs =>
    ∃ front more, FieldWritten key value.Written front ∧ WrittenFields rest more ∧
      cs = '\x7b' :: (front ++ (more ++ ['\x7d']))

/-- The elements behind the first one. -/
def WrittenElements : List Json → List Char → Prop
  | [], cs => cs = []
  | value :: rest, cs =>
    ∃ front more, Padded value.Written front ∧ WrittenElements rest more ∧
      cs = ',' :: (front ++ more)

/-- The fields behind the first one. -/
def WrittenFields : List (String × Json) → List Char → Prop
  | [], cs => cs = []
  | (key, value) :: rest, cs =>
    ∃ front more, FieldWritten key value.Written front ∧ WrittenFields rest more ∧
      cs = ',' :: (front ++ more)

end

/-- The text holds this value and nothing else. -/
def Spells (text : String) (value : Json) : Prop := Padded value.Written text.toList

/-! ## Cutting -/

/-- In front of `rest` the characters are cut into these lexemes. -/
def Cuts (cs rest : List Char) (ls : List Lexeme) : Prop :=
  ∀ fuel, (cs ++ rest).length ≤ fuel → ∃ left, rest.length ≤ left ∧
    lexemesUpTo fuel (cs ++ rest) = ls ++ lexemesUpTo left rest

namespace Cuts

variable {cs ds rest : List Char} {ls ms : List Lexeme}

theorem nil (rest : List Char) : Cuts [] rest [] := fun fuel h => ⟨fuel, h, rfl⟩

theorem append (h : Cuts cs (ds ++ rest) ls) (h' : Cuts ds rest ms) :
    Cuts (cs ++ ds) rest (ls ++ ms) := by
  intro fuel hfuel
  rw [List.append_assoc] at hfuel ⊢
  -- What is left of the fuel is enough for what is left of the text.
  obtain ⟨left, hleft, hcut⟩ := h fuel hfuel
  obtain ⟨left', hleft', hcut'⟩ := h' left hleft
  exact ⟨left', hleft', by rw [hcut, hcut', List.append_assoc]⟩

theorem lexeme {c : Char} {m : List Char} {l : Lexeme} (hc : isBlank c = false)
    (h : scanLexeme c (m ++ rest) = (l, rest)) : Cuts (c :: m) rest [l] := by
  intro fuel hfuel
  rw [List.cons_append, List.length_cons] at hfuel
  cases fuel with
  | zero => exact absurd hfuel (Nat.not_succ_le_zero _)
  | succ fuel =>
    rw [List.length_append] at hfuel
    refine ⟨fuel, by omega, ?_⟩
    rw [List.cons_append, lexemesUpTo, hc, h]
    rfl

/-- A lexeme of one character. -/
theorem mark (c : Char) {l : Lexeme} (hc : isBlank c = false) (h : scanLexeme c rest = (l, rest)) :
    Cuts [c] rest [l] :=
  lexeme hc h

theorem blank {w : List Char} (h : Blank w) (rest : List Char) : Cuts w rest [] := by
  induction w with
  | nil => exact nil rest
  | cons c w ih =>
    have hc : isBlank c = true := by
      have hmem := h c List.mem_cons_self
      unfold isBlank
      simpa [or_assoc] using hmem
    intro fuel hfuel
    cases fuel with
    | zero => exact absurd hfuel (Nat.not_succ_le_zero _)
    | succ fuel =>
      rw [List.cons_append, lexemesUpTo, if_pos hc]
      exact ih (fun d hd => h d (List.mem_cons_of_mem c hd)) fuel (Nat.le_of_succ_le_succ hfuel)

end Cuts

/-! ## Strings -/

theorem hexValue?_eq {value : Nat} {c : Char} (h : HexDigit value c) : hexValue? c = some value := by
  have hlower : ∀ k, k < 16 → "0123456789abcdef".toList[k]?.bind hexValue? = some k := by decide
  have hupper : ∀ k, k < 16 → "0123456789ABCDEF".toList[k]?.bind hexValue? = some k := by decide
  rcases h with h | h
  · have hk := hlower value (List.getElem?_eq_some_iff.mp h).1
    rwa [h] at hk
  · have hk := hupper value (List.getElem?_eq_some_iff.mp h).1
    rwa [h] at hk

theorem escaped?_eq {letter c : Char} (h : (letter, c) ∈ shortEscapes) :
    escaped? letter = some c ∧ letter ≠ 'u' := by
  have hall : ∀ x ∈ shortEscapes, escaped? x.1 = some x.2 ∧ x.1 ≠ 'u' := by decide
  exact hall _ h

theorem scanString_unit {n : Nat} {cs : List Char} (h : UnitWritten n cs) (rest : List Char) :
    scanString (cs ++ rest) = (.unit n :: (scanString rest).1, (scanString rest).2) := by
  obtain ⟨a, b, c, d, ha, hb, hc, hd, rfl⟩ := h
  have hvalue : unitValue? a b c d = some n := by
    unfold unitValue?
    rw [hexValue?_eq ha, hexValue?_eq hb, hexValue?_eq hc, hexValue?_eq hd]
    show some (4096 * (n / 4096) + 256 * (n / 256 % 16) + 16 * (n / 16 % 16) + n % 16) = some n
    congr 1
    omega
  show scanString ('\\' :: 'u' :: a :: b :: c :: d :: rest) = _
  rw [scanString, hvalue]

theorem stringText_unit {n : Nat} (hlead : isLead n = false) (htrail : isTrail n = false)
    (parts : List StringPart) (stop : StringEnd) :
    stringText (.unit n :: parts) stop = (stringText parts stop).map (Char.ofNat n :: ·) := by
  rcases parts with _ | ⟨c | m, rest⟩
  · simp [stringText, hlead, htrail]
  · simp [stringText, hlead, htrail]
  · simp [stringText, hlead, htrail]

theorem toNat_range (c : Char) : c.toNat < 0xD800 ∨ (0xDFFF < c.toNat ∧ c.toNat < 0x110000) := c.valid

/-- A character is cut into pieces that mean just this character, whatever follows. -/
theorem CharWritten.scan {c : Char} {front : List Char} (h : CharWritten c front) :
    ∃ parts, (∀ rest, scanString (front ++ rest) = (parts ++ (scanString rest).1, (scanString rest).2)) ∧
      ∀ more stop, stringText (parts ++ more) stop = (stringText more stop).map (c :: ·) := by
  cases h with
  | plain hcontrol hquote hbackslash =>
    refine ⟨[.char c], fun rest => ?_, fun more stop => rfl⟩
    show scanString (c :: rest) = _
    have hlt : ¬ c < ' ' := Char.not_lt.mpr hcontrol
    rw [scanString, if_neg hlt]
    · rfl
    all_goals
      intros
      contradiction
  | @short letter h =>
    obtain ⟨hescape, hu⟩ := escaped?_eq h
    refine ⟨[.char c], fun rest => ?_, fun more stop => rfl⟩
    show scanString ('\\' :: letter :: rest) = _
    rw [scanString, hescape]
    · rfl
    all_goals
      intros
      contradiction
  | unit hc h =>
    refine ⟨[.unit c.toNat], fun rest => scanString_unit h rest, fun more stop => ?_⟩
    -- No character lies in the range of the surrogates, so one unit is not taken for half a pair.
    have hrange := toNat_range c
    have hlead : isLead c.toNat = false := by
      unfold isLead
      simp only [Bool.and_eq_false_imp, decide_eq_true_eq, decide_eq_false_iff_not]
      omega
    have htrail : isTrail c.toNat = false := by
      unfold isTrail
      simp only [Bool.and_eq_false_imp, decide_eq_true_eq, decide_eq_false_iff_not]
      omega
    show stringText (.unit c.toNat :: more) stop = _
    rw [stringText_unit hlead htrail, Char.ofNat_toNat]
  | @pair lead trail hc hlead htrail =>
    refine ⟨[.unit (leadUnit c), .unit (trailUnit c)], fun rest => ?_, fun more stop => ?_⟩
    · rw [List.append_assoc, scanString_unit hlead, scanString_unit htrail]
      rfl
    have hrange := toNat_range c
    -- The two units are in different ranges, and together they give the character back.
    have hfirst : isLead (leadUnit c) = true ∧ isTrail (leadUnit c) = false := by
      unfold isLead isTrail leadUnit
      simp only [Bool.and_eq_true, Bool.and_eq_false_imp, decide_eq_true_eq, decide_eq_false_iff_not]
      omega
    have hsecond : isTrail (trailUnit c) = true := by
      unfold isTrail trailUnit
      simp only [Bool.and_eq_true, decide_eq_true_eq]
      omega
    have hpair : pairChar (leadUnit c) (trailUnit c) = c := by
      unfold pairChar
      rw [show 0x10000 + 1024 * (leadUnit c - 0xD800) + (trailUnit c - 0xDC00) = c.toNat by
        unfold leadUnit trailUnit; omega, Char.ofNat_toNat]
    show stringText (.unit _ :: .unit _ :: more) stop = _
    rw [stringText, hfirst.2, hfirst.1, hsecond, hpair]
    rfl

theorem CharsWritten.scan {s cs : List Char} (h : CharsWritten s cs) :
    ∃ parts, (∀ rest, scanString (cs ++ '"' :: rest) = (parts, .closed, rest)) ∧
      stringText parts .closed = .ok s := by
  induction h with
  | nil => exact ⟨[], fun rest => by rw [List.nil_append, scanString], rfl⟩
  | cons hc hs ih =>
    obtain ⟨front, hfront, htext⟩ := hc.scan
    obtain ⟨parts, hparts, hrest⟩ := ih
    refine ⟨front ++ parts, fun rest => ?_, ?_⟩
    · rw [List.append_assoc, hfront, hparts]
    · rw [htext, hrest]
      rfl

theorem StringWritten.cuts {s : String} {cs : List Char} (h : StringWritten s cs) :
    ∃ parts, readString parts .closed = .ok s ∧ ∀ rest, Cuts cs rest [.string parts .closed] := by
  obtain ⟨inside, hinside, rfl⟩ := h
  obtain ⟨parts, hscan, htext⟩ := hinside.scan
  refine ⟨parts, ?_, fun rest => .lexeme rfl ?_⟩
  · rw [readString, htext]
    exact congrArg Except.ok String.ofList_toList
  · rw [List.append_assoc, List.singleton_append]
    simp only [scanLexeme, hscan]

/-! ## Numbers -/

/-- What may follow a value: a blank, a comma, a closing bracket, or nothing. -/
def Ends (rest : List Char) : Prop :=
  ∀ c, rest.head? = some c → c ∈ [' ', '\n', '\t', '\r', ',', ']', '\x7d']

/-- No digit follows. -/
def NoDigit (rest : List Char) : Prop := ∀ c, rest.head? = some c → isDecimal c = false

theorem Ends.noDigit {rest : List Char} (h : Ends rest) : NoDigit rest := by
  have hall : ∀ c ∈ [' ', '\n', '\t', '\r', ',', ']', '\x7d'], isDecimal c = false := by simp [isDecimal]
  exact fun c hc => hall c (h c hc)

theorem Digits.isDecimal {digits : List Char} (h : Digits digits) {c : Char} (hc : c ∈ digits) :
    isDecimal c = true := by
  obtain ⟨hlow, hhigh⟩ := h.2 c hc
  unfold Json.isDecimal
  rw [decide_eq_true hlow, decide_eq_true hhigh]
  rfl

theorem span_digits {digits rest : List Char} (h : ∀ c ∈ digits, isDecimal c = true)
    (hrest : NoDigit rest) : (digits ++ rest).span isDecimal = (digits, rest) := by
  rw [List.span_eq_takeWhile_dropWhile]
  induction digits with
  | nil =>
    cases rest with
    | nil => rfl
    | cons c rest => simp [hrest c rfl]
  | cons c digits ih =>
    have hc := h c List.mem_cons_self
    have hmore := Prod.mk.inj (ih fun d hd => h d (List.mem_cons_of_mem c hd))
    simp [hc, hmore.1, hmore.2]

theorem scanExponent_none (n : Numeral) {rest : List Char} (h : Ends rest) :
    scanExponent n rest = (.number n, rest) := by
  cases rest with
  | nil => rfl
  | cons c rest =>
    have hall : ∀ c ∈ [' ', '\n', '\t', '\r', ',', ']', '\x7d'], ¬ (c = 'e' || c = 'E') = true := by
      simp
    show (if (c = 'e' || c = 'E') = true then _ else _) = _
    rw [if_neg (hall c (h c rfl))]

theorem Digits.ne_sign {digits : List Char} (h : Digits digits) :
    ∃ c rest, digits = c :: rest ∧ c ≠ '+' ∧ c ≠ '-' := by
  cases digits with
  | nil => exact absurd rfl h.1
  | cons c rest =>
    have hc := h.isDecimal (c := c) List.mem_cons_self
    refine ⟨c, rest, rfl, ?_, ?_⟩
    · rintro rfl
      exact absurd hc (by decide)
    · rintro rfl
      exact absurd hc (by decide)

theorem scanExponent_digits (n : Numeral) {letter : Char} (hletter : letter ∈ ['e', 'E'])
    {negative : Bool} {sign digits rest : List Char}
    (hsign : sign ∈ if negative then [['-']] else [[], ['+']]) (hdigits : Digits digits)
    (hrest : NoDigit rest) :
    scanExponent n (letter :: (sign ++ (digits ++ rest)))
      = (.number { n with exponent := some (negative, digits) }, rest) := by
  have hspan := span_digits (fun c hc => hdigits.isDecimal hc) hrest
  obtain ⟨first, more, rfl, hplus, hminus⟩ := hdigits.ne_sign
  have hletter' : (letter = 'e' || letter = 'E') = true := by simpa using hletter
  cases negative with
  | true =>
    obtain rfl : sign = ['-'] := by simpa using hsign
    show scanExponent n (letter :: '-' :: (first :: more ++ rest)) = _
    rw [scanExponent, if_pos hletter', hspan]
    rfl
  | false =>
    have hsign : sign = [] ∨ sign = ['+'] := by simpa using hsign
    rcases hsign with rfl | rfl
    · rw [List.nil_append, scanExponent, if_pos hletter', hspan]
      · rfl
      all_goals
        intro _ heq
        injection heq with heq
        contradiction
    · show scanExponent n (letter :: '+' :: (first :: more ++ rest)) = _
      rw [scanExponent, if_pos hletter', hspan]
      rfl

theorem Numeral.ExponentWritten.scan {n : Numeral} {cs rest : List Char} (hn : n.WellFormed)
    (h : n.ExponentWritten cs) (hrest : Ends rest) :
    scanExponent { n with exponent := none } (cs ++ rest) = (.number n, rest) := by
  obtain ⟨negative, whole, fraction, exponent⟩ := n
  cases exponent with
  | none =>
    obtain rfl : cs = [] := h
    exact scanExponent_none _ hrest
  | some e =>
    obtain ⟨letter, hletter, sign, hsign, rfl⟩ := h
    rw [List.cons_append, List.append_assoc]
    exact scanExponent_digits _ hletter hsign (hn.exponent _ _ rfl) hrest.noDigit

theorem Numeral.ExponentWritten.noDigit {n : Numeral} {cs rest : List Char}
    (h : n.ExponentWritten cs) (hrest : Ends rest) :
    ∀ c, (cs ++ rest).head? = some c → isDecimal c = false ∧ c ≠ '.' := by
  intro c hc
  unfold ExponentWritten at h
  split at h
  · subst h
    refine ⟨hrest.noDigit c hc, ?_⟩
    rintro rfl
    exact absurd (hrest '.' hc) (by decide)
  · obtain ⟨letter, hletter, sign, hsign, rfl⟩ := h
    obtain rfl : letter = c := Option.some.inj hc
    have hall : ∀ c ∈ ['e', 'E'], isDecimal c = false ∧ c ≠ '.' := by simp [isDecimal]
    exact hall _ hletter

theorem Numeral.ExponentWritten.scanFraction {n : Numeral} {exponent rest : List Char}
    (hn : n.WellFormed) (h : n.ExponentWritten exponent) (hrest : Ends rest) :
    scanFraction { n with fraction := none, exponent := none }
      (n.fractionText ++ (exponent ++ rest)) = (.number n, rest) := by
  have htail := h.scan hn hrest
  have hhead := h.noDigit hrest
  obtain ⟨negative, whole, fraction, power⟩ := n
  cases fraction with
  | none =>
    show Json.scanFraction _ (exponent ++ rest) = _
    -- Without a fraction the number goes on with its exponent, which does not begin with a point.
    rw [Json.scanFraction]
    · exact htail
    · intro cs hcs
      rw [hcs] at hhead
      exact (hhead '.' rfl).2 rfl
  | some digits =>
    have hdigits := hn.fraction digits rfl
    have hspan := span_digits (fun c hc => hdigits.isDecimal hc) fun c hc => (hhead c hc).1
    obtain ⟨first, more, rfl, -⟩ := hdigits.ne_sign
    show Json.scanFraction _ ('.' :: (first :: more ++ (exponent ++ rest))) = _
    rw [Json.scanFraction, hspan]
    exact htail

theorem Numeral.ExponentWritten.scanNumber {n : Numeral} {exponent rest : List Char}
    (hn : n.WellFormed) (h : n.ExponentWritten exponent) (hrest : Ends rest) :
    scanNumber n.negative (n.whole ++ (n.fractionText ++ (exponent ++ rest))) = (.number n, rest) := by
  have hfraction := h.scanFraction hn hrest
  have hstart : NoDigit (n.fractionText ++ (exponent ++ rest)) := by
    unfold fractionText
    split
    · exact fun c hc => (h.noDigit hrest c hc).1
    · intro c hc
      obtain rfl : '.' = c := Option.some.inj hc
      decide
  have hspan := span_digits (fun c hc => hn.whole.isDecimal hc) hstart
  unfold Json.scanNumber
  rw [hspan]
  dsimp only
  -- There are digits, and a zero in front stands alone, so the scanner finds no fault.
  split
  · exact absurd ‹_› hn.whole.1
  · next hwhole =>
    have hzero := hn.zero (by rw [hwhole]; rfl)
    rw [hwhole] at hzero
    injection hzero with _ hmore
    contradiction
  · exact hfraction

theorem scanLexeme_digit {c : Char} (h : isDecimal c = true) (rest : List Char) :
    isBlank c = false ∧ scanLexeme c rest = scanNumber false (c :: rest) := by
  have hne : ∀ d, isDecimal d = false → c ≠ d := by
    rintro d hd rfl
    rw [h] at hd
    contradiction
  constructor
  · unfold isBlank
    simp only [hne ' ' rfl, hne '\n' rfl, hne '\t' rfl, hne '\r' rfl, decide_false, Bool.or_false]
  · rw [scanLexeme, if_pos h]
    all_goals exact hne _ rfl

theorem Numeral.Written.cuts {n : Numeral} {cs rest : List Char} (h : n.Written cs)
    (hrest : Ends rest) : Cuts cs rest [.number n] := by
  obtain ⟨hn, exponent, hexponent, rfl⟩ := h
  have hscan := hexponent.scanNumber hn hrest
  unfold signText
  cases hneg : n.negative with
  | true =>
    rw [hneg] at hscan
    refine .lexeme (c := '-') (m := n.whole ++ (n.fractionText ++ exponent)) rfl ?_
    rw [List.append_assoc, List.append_assoc]
    exact hscan
  | false =>
    obtain ⟨first, more, hwhole, -⟩ := hn.whole.ne_sign
    rw [hneg, hwhole] at hscan
    rw [hwhole]
    have hfirst := scanLexeme_digit (hn.whole.isDecimal (c := first) (hwhole ▸ List.mem_cons_self))
    refine .lexeme (c := first) (m := more ++ (n.fractionText ++ exponent)) (hfirst []).1 ?_
    rw [(hfirst _).2, List.append_assoc, List.append_assoc]
    exact hscan

/-! ## Values -/

/-- The lexeme of a string. -/
def LexedString (s : String) (l : Lexeme) : Prop :=
  ∃ parts, readString parts .closed = .ok s ∧ l = .string parts .closed

/-- The lexemes of a field. -/
def LexedField (key : String) (lexed : List Lexeme → Prop) (ls : List Lexeme) : Prop :=
  ∃ name back, LexedString key name ∧ lexed back ∧ ls = name :: .colon :: back

mutual

/-- The lexemes of a value. -/
def Lexed : Json → List Lexeme → Prop
  | .null, ls => ls = [.null]
  | .bool b, ls => ls = [.bool b]
  | .number n, ls => n.WellFormed ∧ ls = [.number n]
  | .string s, ls => ∃ l, LexedString s l ∧ ls = [l]
  | .array [], ls => ls = [.openArray, .closeArray]
  | .array (first :: rest), ls =>
    ∃ front more, first.Lexed front ∧ LexedElements rest more ∧
      ls = .openArray :: (front ++ (more ++ [.closeArray]))
  | .object [], ls => ls = [.openObject, .closeObject]
  | .object ((key, value) :: rest), ls =>
    ∃ front more, LexedField key value.Lexed front ∧ LexedFields rest more ∧
      ls = .openObject :: (front ++ (more ++ [.closeObject]))

/-- The lexemes of the elements behind the first one. -/
def LexedElements : List Json → List Lexeme → Prop
  | [], ls => ls = []
  | value :: rest, ls =>
    ∃ front more, value.Lexed front ∧ LexedElements rest more ∧ ls = .comma :: (front ++ more)

/-- The lexemes of the fields behind the first one. -/
def LexedFields : List (String × Json) → List Lexeme → Prop
  | [], ls => ls = []
  | (key, value) :: rest, ls =>
    ∃ front more, LexedField key value.Lexed front ∧ LexedFields rest more ∧
      ls = .comma :: (front ++ more)

end

theorem Ends.blank {w rest : List Char} (h : Blank w) (hrest : Ends rest) : Ends (w ++ rest) := by
  cases w with
  | nil => exact hrest
  | cons c w =>
    intro d hd
    obtain rfl : c = d := Option.some.inj hd
    have hall : ∀ c ∈ [' ', '\n', '\t', '\r'], c ∈ [' ', '\n', '\t', '\r', ',', ']', '\x7d'] := by
      simp
    exact hall c (h c List.mem_cons_self)

theorem Ends.cons {c : Char} (hc : c ∈ [' ', '\n', '\t', '\r', ',', ']', '\x7d'])
    (rest : List Char) : Ends (c :: rest) := by
  intro d hd
  obtain rfl : c = d := Option.some.inj hd
  exact hc

theorem Padded.cuts {written : List Char → Prop} {lexed : List Lexeme → Prop} {cs rest : List Char}
    (h : Padded written cs) (hrest : Ends rest)
    (hcore : ∀ core, written core → ∀ rest, Ends rest → ∃ ls, Cuts core rest ls ∧ lexed ls) :
    ∃ ls, Cuts cs rest ls ∧ lexed ls := by
  obtain ⟨before, core, after, hbefore, hwritten, hafter, rfl⟩ := h
  obtain ⟨ls, hcuts, hlexed⟩ := hcore core hwritten (after ++ rest) (hrest.blank hafter)
  refine ⟨ls, ?_, hlexed⟩
  have htail := hcuts.append (.blank hafter rest)
  rw [List.append_nil] at htail
  exact (Cuts.blank hbefore _).append htail

theorem FieldWritten.cuts {key : String} {written : List Char → Prop} {lexed : List Lexeme → Prop}
    {cs rest : List Char} (h : FieldWritten key written cs) (hrest : Ends rest)
    (hcore : ∀ core, written core → ∀ rest, Ends rest → ∃ ls, Cuts core rest ls ∧ lexed ls) :
    ∃ ls, Cuts cs rest ls ∧ LexedField key lexed ls := by
  obtain ⟨front, back, ⟨before, name, after, hbefore, hname, hafter, rfl⟩, hback, rfl⟩ := h
  obtain ⟨parts, hparts, hcuts⟩ := hname.cuts
  obtain ⟨ls, hls, hlexed⟩ := hback.cuts hrest hcore
  refine ⟨.string parts .closed :: .colon :: ls, ?_, _, ls, ⟨parts, hparts, rfl⟩, hlexed, rfl⟩
  have hcolon : Cuts (':' :: back) rest (.colon :: ls) :=
    (Cuts.mark ':' rfl rfl).append hls
  have hkey := (hcuts _).append (.blank hafter (':' :: back ++ rest))
  have hfront := (Cuts.blank hbefore _).append hkey
  exact hfront.append hcolon

theorem WrittenElements.ends {values : List Json} {cs rest : List Char}
    (h : WrittenElements values cs) (hrest : Ends rest) : Ends (cs ++ rest) := by
  cases values with
  | nil =>
    obtain rfl := h
    exact hrest
  | cons value values =>
    obtain ⟨front, more, _, _, rfl⟩ := h
    exact .cons (by decide) _

theorem WrittenFields.ends {fields : List (String × Json)} {cs rest : List Char}
    (h : WrittenFields fields cs) (hrest : Ends rest) : Ends (cs ++ rest) := by
  cases fields with
  | nil =>
    obtain rfl := h
    exact hrest
  | cons field fields =>
    obtain ⟨front, more, _, _, rfl⟩ := h
    exact .cons (by decide) _

theorem cuts_closeArray (rest : List Char) : Cuts [']'] rest [.closeArray] := .mark _ rfl rfl

theorem cuts_closeObject (rest : List Char) : Cuts ['\x7d'] rest [.closeObject] := .mark _ rfl rfl

mutual

/-- A value is cut into its lexemes. -/
theorem Written.cuts : (v : Json) → {cs rest : List Char} → v.Written cs → Ends rest →
    ∃ ls, Cuts cs rest ls ∧ v.Lexed ls
  | .null, _, _, h, _ => by
    obtain rfl := h
    exact ⟨[.null], .lexeme rfl rfl, rfl⟩
  | .bool b, _, _, h, _ => by
    obtain rfl := h
    refine ⟨[.bool b], ?_, rfl⟩
    cases b with
    | true => exact .lexeme rfl rfl
    | false => exact .lexeme rfl rfl
  | .number n, _, _, h, hrest => ⟨[.number n], Numeral.Written.cuts h hrest, h.1, rfl⟩
  | .string s, _, _, h, _ => by
    obtain ⟨parts, hparts, hcuts⟩ := StringWritten.cuts h
    exact ⟨_, hcuts _, _, ⟨parts, hparts, rfl⟩, rfl⟩
  | .array [], _, rest, h, _ => by
    obtain ⟨blank, hblank, rfl⟩ := h
    have hinside := (Cuts.blank hblank _).append (cuts_closeArray rest)
    exact ⟨_, (Cuts.mark '[' rfl rfl).append hinside, rfl⟩
  | .array (first :: values), _, rest, h, _ => by
    obtain ⟨front, more, hfront, hmore, rfl⟩ := h
    have hends : Ends ([']'] ++ rest) := .cons (by decide) rest
    obtain ⟨ms, hms, hmany⟩ := WrittenElements.cuts values hmore hends
    have hinside := hms.append (cuts_closeArray rest)
    -- A number in front of the next element ends there, whether that is a comma or the bracket.
    have hnext : Ends (more ++ [']'] ++ rest) := List.append_assoc .. ▸ WrittenElements.ends hmore hends
    obtain ⟨ls, hls, hone⟩ := hfront.cuts hnext fun core hcore rest => Written.cuts first hcore
    refine ⟨_, (Cuts.mark '[' rfl rfl).append (hls.append hinside), ?_⟩
    exact ⟨ls, ms, hone, hmany, rfl⟩
  | .object [], _, rest, h, _ => by
    obtain ⟨blank, hblank, rfl⟩ := h
    have hinside := (Cuts.blank hblank _).append (cuts_closeObject rest)
    exact ⟨_, (Cuts.mark '\x7b' rfl rfl).append hinside, rfl⟩
  | .object ((key, first) :: fields), _, rest, h, _ => by
    obtain ⟨front, more, hfront, hmore, rfl⟩ := h
    have hends : Ends (['\x7d'] ++ rest) := .cons (by decide) rest
    obtain ⟨ms, hms, hmany⟩ := WrittenFields.cuts fields hmore hends
    have hinside := hms.append (cuts_closeObject rest)
    have hnext : Ends (more ++ ['\x7d'] ++ rest) := List.append_assoc .. ▸ WrittenFields.ends hmore hends
    obtain ⟨ls, hls, hone⟩ := hfront.cuts hnext fun core hcore rest => Written.cuts first hcore
    refine ⟨_, (Cuts.mark '\x7b' rfl rfl).append (hls.append hinside), ?_⟩
    exact ⟨ls, ms, hone, hmany, rfl⟩

theorem WrittenElements.cuts : (values : List Json) → {cs rest : List Char} →
    WrittenElements values cs → Ends rest → ∃ ls, Cuts cs rest ls ∧ LexedElements values ls
  | [], _, _, h, _ => by
    obtain rfl := h
    exact ⟨[], .nil _, rfl⟩
  | value :: values, _, rest, h, hrest => by
    obtain ⟨front, more, hfront, hmore, rfl⟩ := h
    obtain ⟨ms, hms, hmany⟩ := WrittenElements.cuts values hmore hrest
    have hnext := WrittenElements.ends hmore hrest
    obtain ⟨ls, hls, hone⟩ := hfront.cuts hnext fun core hcore rest => Written.cuts value hcore
    refine ⟨_, (Cuts.mark ',' rfl rfl).append (hls.append hms), ?_⟩
    exact ⟨ls, ms, hone, hmany, rfl⟩

theorem WrittenFields.cuts : (fields : List (String × Json)) → {cs rest : List Char} →
    WrittenFields fields cs → Ends rest → ∃ ls, Cuts cs rest ls ∧ LexedFields fields ls
  | [], _, _, h, _ => by
    obtain rfl := h
    exact ⟨[], .nil _, rfl⟩
  | (key, value) :: fields, _, rest, h, hrest => by
    obtain ⟨front, more, hfront, hmore, rfl⟩ := h
    obtain ⟨ms, hms, hmany⟩ := WrittenFields.cuts fields hmore hrest
    have hnext := WrittenFields.ends hmore hrest
    obtain ⟨ls, hls, hone⟩ := hfront.cuts hnext fun core hcore rest => Written.cuts value hcore
    refine ⟨_, (Cuts.mark ',' rfl rfl).append (hls.append hms), ?_⟩
    exact ⟨ls, ms, hone, hmany, rfl⟩

end

/-- The lexemes of a text that spells a value are those of the value. -/
theorem Spells.lexed {text : String} {v : Json} (h : Spells text v) : v.Lexed (lexemes text) := by
  have hends : Ends [] := fun c hc => absurd hc (by simp)
  obtain ⟨ls, hcuts, hlexed⟩ := h.cuts hends fun core hcore rest => Written.cuts v hcore
  obtain ⟨left, -, heq⟩ := hcuts text.length (by rw [List.append_nil]; exact Nat.le_refl _)
  have hnil : lexemesUpTo left [] = [] := by cases left <;> rfl
  rw [List.append_nil, hnil, List.append_nil] at heq
  rw [lexemes, heq]
  exact hlexed

end Semant.Json
