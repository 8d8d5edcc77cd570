import Semant.Json.Pretty
import Semant.Proofs.Json.Parsing

/-!
# What is written

A value as it is written out (`Json.pretty`) is one of its spellings, whatever its strings are. A text
spells one value only, so nothing is lost by writing (`Spells.pretty`).
-/

set_option autoImplicit false

namespace Semant.Json

/-! ## Strings -/

theorem hexDigit_spec {k : Nat} (h : k < 16) : HexDigit k (hexDigit k) := by
  have hall : ∀ k, k < 16 → "0123456789abcdef".toList[k]? = some (hexDigit k) := by decide
  exact .inl (hall k h)

theorem CharWritten.escapeChar (c : Char) : CharWritten c (escapeChar c) := by
  unfold Json.escapeChar
  split
  · exact .short (by decide)
  · exact .short (by decide)
  · exact .short (by decide)
  · exact .short (by decide)
  · exact .short (by decide)
  · exact .short (by decide)
  · exact .short (by decide)
  · next hquote hbackslash _ _ _ _ _ =>
    split
    · next hcontrol =>
      -- Two of the four digits are always zero.
      have hlt : c.toNat < 32 := hcontrol
      refine .unit (by omega) ⟨'0', '0', _, _, ?_, ?_, ?_, ?_, rfl⟩
      · rw [show c.toNat / 4096 = 0 by omega]
        exact .inl rfl
      · rw [show c.toNat / 256 % 16 = 0 by omega]
        exact .inl rfl
      · rw [show c.toNat / 16 % 16 = c.toNat / 16 by omega]
        exact hexDigit_spec (by omega)
      · exact hexDigit_spec (by omega)
    · next hplain => exact .plain (Char.not_lt.mp hplain) hquote hbackslash

theorem CharsWritten.flatMap (s : List Char) : CharsWritten s (s.flatMap Json.escapeChar) := by
  induction s with
  | nil => exact .nil
  | cons c s ih =>
    rw [List.flatMap_cons]
    exact .cons (.escapeChar c) ih

theorem StringWritten.quoted (s : String) : StringWritten s (quoted s).toList :=
  ⟨_, .flatMap s.toList, by simp [Json.quoted]⟩

/-! ## Numbers -/

theorem Numeral.Written.text {n : Numeral} (h : n.WellFormed) : n.Written n.text.toList := by
  refine ⟨h, ?_⟩
  obtain ⟨negative, whole, fraction, exponent⟩ := n
  cases exponent with
  | none =>
    refine ⟨[], rfl, ?_⟩
    cases negative <;> cases fraction <;> simp [Numeral.text, signText, fractionText]
  | some e =>
    obtain ⟨sign, digits⟩ := e
    refine ⟨'e' :: ((if sign then ['-'] else []) ++ digits), ⟨'e', by decide, _, ?_, rfl⟩, ?_⟩
    · cases sign with
      | true => exact List.mem_singleton.mpr rfl
      | false => exact List.mem_cons_self
    · cases negative <;> cases fraction <;> cases sign <;> simp [Numeral.text, signText, fractionText]

/-! ## Values -/

theorem Blank.newline (depth : Nat) : Blank (newline depth).toList := by
  intro c hc
  simp only [Json.newline, String.toList_append, String.toList_ofList, List.mem_append] at hc
  rcases hc with hc | hc
  · obtain rfl : c = '\n' := by simpa using hc
    decide
  · obtain ⟨-, rfl⟩ := List.mem_replicate.mp hc
    decide

theorem Blank.nil : Blank [] := fun _ hc => absurd hc List.not_mem_nil

theorem Blank.append {v w : List Char} (hv : Blank v) (hw : Blank w) : Blank (v ++ w) :=
  fun c hc => (List.mem_append.mp hc).elim (hv c) (hw c)

theorem Padded.append_blank {written : List Char → Prop} {cs w : List Char} (h : Padded written cs)
    (hw : Blank w) : Padded written (cs ++ w) := by
  obtain ⟨before, core, after, hbefore, hcore, hafter, rfl⟩ := h
  exact ⟨before, core, after ++ w, hbefore, hcore, hafter.append hw, by simp only [List.append_assoc]⟩

theorem FieldWritten.append_blank {key : String} {written : List Char → Prop} {cs w : List Char}
    (h : FieldWritten key written cs) (hw : Blank w) : FieldWritten key written (cs ++ w) := by
  obtain ⟨front, back, hfront, hback, rfl⟩ := h
  exact ⟨front, back ++ w, hfront, hback.append_blank hw, by simp only [List.append_assoc, List.cons_append]⟩

/-- Blanks at the end of an array belong to its last element. -/
theorem WrittenElements.append_blank {written : List Char → Prop} {values : List Json} {w : List Char}
    (hw : Blank w) : ∀ {front more : List Char}, Padded written front → WrittenElements values more →
      ∃ front' more', Padded written front' ∧ WrittenElements values more' ∧
        front' ++ more' = front ++ (more ++ w) := by
  induction values generalizing written with
  | nil =>
    intro front more hfront hmore
    obtain rfl := hmore
    exact ⟨front ++ w, [], hfront.append_blank hw, rfl, by rw [List.append_nil, List.nil_append]⟩
  | cons value values ih =>
    intro front more hfront hmore
    obtain ⟨one, rest, hone, hrest, rfl⟩ := hmore
    obtain ⟨one', rest', hone', hrest', heq⟩ := ih hone hrest
    refine ⟨front, ',' :: (one' ++ rest'), hfront, ⟨one', rest', hone', hrest', rfl⟩, ?_⟩
    rw [heq, List.cons_append, List.append_assoc]

/-- Blanks at the end of an object belong to its last field. -/
theorem WrittenFields.append_blank {key : String} {written : List Char → Prop}
    {fields : List (String × Json)} {w : List Char} (hw : Blank w) :
    ∀ {front more : List Char}, FieldWritten key written front → WrittenFields fields more →
      ∃ front' more', FieldWritten key written front' ∧ WrittenFields fields more' ∧
        front' ++ more' = front ++ (more ++ w) := by
  induction fields generalizing key written with
  | nil =>
    intro front more hfront hmore
    obtain rfl := hmore
    exact ⟨front ++ w, [], hfront.append_blank hw, rfl, by rw [List.append_nil, List.nil_append]⟩
  | cons field fields ih =>
    intro front more hfront hmore
    obtain ⟨one, rest, hone, hrest, rfl⟩ := hmore
    obtain ⟨one', rest', hone', hrest', heq⟩ := ih hone hrest
    refine ⟨front, ',' :: (one' ++ rest'), hfront, ⟨one', rest', hone', hrest', rfl⟩, ?_⟩
    rw [heq, List.cons_append, List.append_assoc]

theorem Padded.newline {written : List Char → Prop} {cs : List Char} (h : written cs) (depth : Nat) :
    Padded written ((newline depth).toList ++ cs) :=
  ⟨(Json.newline depth).toList, cs, [], .newline depth, h, .nil, by rw [List.append_nil]⟩

theorem FieldWritten.newline (key : String) {written : List Char → Prop} {cs : List Char} (h : written cs)
    (depth : Nat) :
    FieldWritten key written ((newline depth).toList ++ (quoted key).toList ++ ": ".toList ++ cs) := by
  have hblank : Blank [' '] := by
    intro c hc
    obtain rfl := List.mem_singleton.mp hc
    decide
  refine ⟨(Json.newline depth).toList ++ (quoted key).toList, ' ' :: cs, .newline (.quoted key) depth,
    ⟨[' '], cs, [], hblank, h, .nil, by rw [List.append_nil]; rfl⟩, ?_⟩
  rw [List.append_assoc _ ": ".toList]
  rfl

mutual

theorem Written.pretty : (v : Json) → (∀ n ∈ v.numerals, n.WellFormed) → (depth : Nat) →
    v.Written (prettyAt depth v).toList
  | .null, _, _ => rfl
  | .bool b, _, _ => by
    cases b with
    | true => rfl
    | false => rfl
  | .number n, h, _ => .text (h n List.mem_cons_self)
  | .string s, _, _ => .quoted s
  | .array [], _, _ => ⟨[], .nil, by simp [prettyAt]⟩
  | .array (first :: values), h, depth => by
    have hnumerals := List.forall_mem_append.mp h
    have hone := Padded.newline (Written.pretty first hnumerals.1 (depth + 1)) (depth + 1)
    have hmany := WrittenElements.pretty values hnumerals.2 (depth + 1)
    obtain ⟨front, more, hfront, hmore, heq⟩ := WrittenElements.append_blank (.newline depth) hone hmany
    refine ⟨front, more, hfront, hmore, ?_⟩
    rw [← List.append_assoc, heq]
    simp [prettyAt]
  | .object [], _, _ => ⟨[], .nil, by simp [prettyAt]⟩
  | .object ((key, first) :: fields), h, depth => by
    have hnumerals := List.forall_mem_append.mp h
    have hone := FieldWritten.newline key (Written.pretty first hnumerals.1 (depth + 1)) (depth + 1)
    have hmany := WrittenFields.pretty fields hnumerals.2 (depth + 1)
    obtain ⟨front, more, hfront, hmore, heq⟩ := WrittenFields.append_blank (.newline depth) hone hmany
    refine ⟨front, more, hfront, hmore, ?_⟩
    rw [← List.append_assoc, heq]
    simp [prettyAt]

theorem WrittenElements.pretty : (values : List Json) → (∀ n ∈ elementNumerals values, n.WellFormed) →
    (depth : Nat) → WrittenElements values (prettyElements depth values).toList
  | [], _, _ => rfl
  | value :: values, h, depth => by
    have hnumerals := List.forall_mem_append.mp h
    refine ⟨_, _, Padded.newline (Written.pretty value hnumerals.1 depth) depth,
      WrittenElements.pretty values hnumerals.2 depth, ?_⟩
    simp [prettyElements]

theorem WrittenFields.pretty : (fields : List (String × Json)) →
    (∀ n ∈ fieldNumerals fields, n.WellFormed) → (depth : Nat) →
    WrittenFields fields (prettyFields depth fields).toList
  | [], _, _ => rfl
  | (key, value) :: fields, h, depth => by
    have hnumerals := List.forall_mem_append.mp h
    refine ⟨_, _, FieldWritten.newline key (Written.pretty value hnumerals.1 depth) depth,
      WrittenFields.pretty fields hnumerals.2 depth, ?_⟩
    simp [prettyFields]

end

/-- A value as it is written out is one of its spellings. -/
theorem Spells.pretty {v : Json} (h : ∀ n ∈ v.numerals, n.WellFormed) : Spells v.pretty v :=
  ⟨[], _, [], .nil, Written.pretty v h 0, .nil, by rw [List.nil_append, List.append_nil]; rfl⟩

end Semant.Json
