import Semant.Document.Lower
import Semant.Proofs.Document.Decoding
import Semant.Proofs.Json.Printing
import Semant.Proofs.Json.Range

/-!
# Documents and texts

Reading undoes writing: every text of every encoding of a document is read as this document, and loading
it builds the tree of the document (`read_encoded`).

The one thing that has to be assumed besides the depth is that numbers are small enough, and here the
reader is not exact. Numbers occur in a document only as places, which are small, but they can also
occur in fields that the document does not have. Of these, the reader refuses some that are as large as
the largest doubles (`large_number_unread`).
-/

set_option autoImplicit false

namespace Semant

open Document Json

/-- **Reading undoes writing.** Every text of every encoding of a document is read as this document, so
loading it is lowering the document. Containers must not be nested too deep, and numbers must not be too
large for the reader's arithmetic, which those up to `2 ^ 1024 - 2 ^ 973` never are. -/
theorem read_encoded {d : Document} {v : Json} {text : String} (hv : d.Encodes v) (htext : Spells text v)
    (hdepth : v.depth ≤ 127)
    (hnumbers : ∀ n ∈ v.numerals, n.magnitude ≤ 2 ^ 1024 - 2 ^ 973 ∨ n.fitsDouble = true) :
    Document.read text = .ok d ∧
      ∀ next,
        (∀ program builder, d.lower.run { file := d.file, next } = .ok program builder →
          Program.load text next = .ok (program, builder.next)) ∧
        ∀ error builder, d.lower.run { file := d.file, next } = .error error builder →
          Program.load text next = .error (.build error) := by
  have hfits : ∀ n ∈ v.numerals, n.fitsDouble = true := by
    intro n hn
    rcases hnumbers n hn with hmagnitude | hfits
    · exact Numeral.fitsDouble_of_magnitude_le (Lexed.wellFormed v htext.lexed n hn) hmagnitude
    · exact hfits
  have hread := read_ok hv htext hdepth hfits
  refine ⟨hread, fun next => ⟨fun program builder hrun => ?_, fun error builder hrun => ?_⟩⟩
  · rw [Program.load, hread]
    simp only [hrun]
  · rw [Program.load, hread]
    simp only [hrun]

/-- The start of a program that returns. -/
def returning : Document :=
  { file := "a", items := [.start ⟨1, 1⟩ [.ret ⟨2, 3⟩ none]] }

/-- The document as an array, its item as an object with the fields in reverse order and one more, and the
statement as an array with a number for its tag and without its value. -/
def returningWith (n : Numeral) : Json :=
  .array [.string "a", .array [.object
    [("note", .number n), ("body", .array [.array [.ofNat 6, .array [.ofNat 2, .ofNat 3]]]),
      ("at", .array [.ofNat 1, .ofNat 1]), ("item", .string "start")]]]

theorem returningWith_encodes (n : Numeral) : returning.Encodes (returningWith n) := by
  have hstmt : (Document.Stmt.ret ⟨2, 3⟩ none).Encodes
      (.array [.ofNat 6, .array [.ofNat 2, .ofNat 3]]) :=
    .inr ⟨[.required "stmt" (.tag "return" 6), .required "at" (.place ⟨2, 3⟩)], [.optional "value" none],
      _, rfl, by simp [Slot.optional], .cons (.inr rfl) (.cons rfl .nil), rfl⟩
  have hitem : Encoder.node (Document.Item.start ⟨1, 1⟩ [.ret ⟨2, 3⟩ none]).slots (.object
      [("note", .number n), ("body", .array [.array [.ofNat 6, .array [.ofNat 2, .ofNat 3]]]),
        ("at", .array [.ofNat 1, .ofNat 1]), ("item", .string "start")]) :=
    .inl ⟨[("item", .string "start"), ("at", .array [.ofNat 1, .ofNat 1]),
        ("body", .array [.array [.ofNat 6, .array [.ofNat 2, .ofNat 3]]])], [("note", .number n)], _,
      .given rfl (.given rfl (.given ⟨_, rfl, .cons hstmt .nil⟩ .nil)), by simp [Item.slots, Slot.required],
      List.reverse_perm _, rfl⟩
  have hnone : ∀ slot ∈ ([] : List Slot), slot.omissible = true :=
    fun _ hm => absurd hm List.not_mem_nil
  exact .inr ⟨_, [], _, (List.append_nil _).symm, hnone, .cons rfl (.cons ⟨_, rfl, .cons hitem .nil⟩ .nil),
    rfl⟩

theorem returningWith_numerals {n m : Numeral} (h : m ∈ (returningWith n).numerals) :
    m = n ∨ ∃ k ≤ 6, m = .ofNat k := by
  have hcases : m = n ∨ m ∈ [6, 2, 3, 1, 1].map Numeral.ofNat := by
    simpa [returningWith, numerals, elementNumerals, fieldNumerals, Json.ofNat] using h
  refine hcases.imp_right fun hm => ?_
  obtain ⟨k, hk, rfl⟩ := List.mem_map.mp hm
  have hall : ∀ k ∈ [6, 2, 3, 1, 1], k ≤ 6 := by decide
  exact ⟨k, hall k hk, rfl⟩

theorem returningWith_spelled {n : Numeral} (h : n.WellFormed) :
    Spells (returningWith n).pretty (returningWith n) := by
  refine .pretty fun m hm => ?_
  rcases returningWith_numerals hm with rfl | ⟨k, -, rfl⟩
  · exact h
  · exact Numeral.ofNat_wellFormed k

/-- A number of 309 digits. -/
def tenTo308 : Numeral := { whole := ['1'], exponent := some (false, ['3', '0', '8']) }

theorem tenTo308_wellFormed : tenTo308.WellFormed where
  whole := ⟨nofun, by simp [tenTo308]⟩
  zero := by decide
  fraction := nofun
  exponent := by
    rintro _ _ ⟨⟩
    exact ⟨nofun, by simp⟩

theorem returning_read : Document.read (returningWith tenTo308).pretty = .ok returning := by
  refine (read_encoded (returningWith_encodes _) (returningWith_spelled tenTo308_wellFormed) (by decide)
    ?_).1
  intro m hm
  rcases returningWith_numerals hm with rfl | ⟨k, hk, rfl⟩
  · exact .inl (Numeral.magnitude_le (k := 1) (e := 308) rfl rfl (by decide +kernel) (by decide))
  · have hall : ∀ k, k ≤ 6 → (Numeral.ofNat k).fitsDouble = true := by decide +kernel
    exact .inr (hall k hk)

/-- A number below the largest double, with three digits more than it needs. -/
def nearlyLargest : Numeral :=
  { whole := ['1'], fraction := some "7976931348623157000".toList, exponent := some (false, ['3', '0', '8']) }

theorem nearlyLargest_wellFormed : nearlyLargest.WellFormed where
  whole := ⟨nofun, by simp [nearlyLargest]⟩
  zero := by decide
  fraction := by
    rintro _ ⟨⟩
    exact ⟨nofun, by simp⟩
  exponent := by
    rintro _ _ ⟨⟩
    exact ⟨nofun, by simp⟩

/-- Numbers up to the largest double are not all small enough for the reader. -/
theorem large_number_unread :
    ∃ d v text, Document.Encodes d v ∧ Spells text v ∧ v.depth ≤ 127 ∧
      (∀ n ∈ v.numerals, n.magnitude ≤ 2 ^ 1024 - 2 ^ 971) ∧
      Document.read text = .error .malformed := by
  refine ⟨returning, returningWith nearlyLargest, _, returningWith_encodes _,
    returningWith_spelled nearlyLargest_wellFormed, by decide, fun m hm => ?_, ?_⟩
  · rcases returningWith_numerals hm with rfl | ⟨k, hk, rfl⟩
    · exact Numeral.magnitude_le (k := 17976931348623157000) (e := 289) rfl rfl (by decide +kernel)
        (by decide)
    · have hall : ∀ k, k ≤ 6 → k * 10 ^ 0 ≤ 2 ^ 1024 - 2 ^ 971 := by decide +kernel
      refine Numeral.magnitude_le (e := 0) ?_ rfl (hall k hk) (by decide)
      exact (congrArg _ (List.append_nil _)).trans (Numeral.digitsValue_toDigits k)
  · have hread : (Document.read (returningWith nearlyLargest).pretty).map (fun _ => ())
        = .error .malformed := by decide +kernel
    cases h : Document.read (returningWith nearlyLargest).pretty with
    | ok d =>
      rw [h] at hread
      contradiction
    | error fault =>
      rw [h] at hread
      exact congrArg Except.error (Except.error.inj hread)

end Semant
