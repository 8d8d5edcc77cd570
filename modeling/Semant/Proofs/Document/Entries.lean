import Semant.Document.Reading
import Semant.Proofs.Document.Encoding

/-!
# The entries of a node

Encoder and reader meet in the parts of a node. A part is a name, a role and the content of a field, and
`Slot.Means` says that a field as it may be written gives this content in this role. Whether a node is
an object or an array no longer matters once its entries are known to cover its parts (`Covers`): then
they pass the reader's checks, and the fields that it finds give the parts.

The tag of an object is apart from that. It is looked for among all entries (`Finds`), and the entries
without it cover the parts.
-/

set_option autoImplicit false

namespace Semant.Document

open Json (Fault fieldReadings readingsOf)

/-! ## Parts -/

/-- The content of a field. -/
def Role.Content : Role → Type
  | .text => String
  | .flag => Bool
  | .place => Place
  | .optionalPlace => Option Place
  | .expr => Expr
  | .optionalExpr => Option Expr
  | .exprs => List Expr
  | .optionalStmt => Option Stmt
  | .stmts => List Stmt
  | .decls => List Decl

/-- What the absence of a field stands for. -/
def Role.absent? : (role : Role) → Option role.Content
  | .flag => some false
  | .optionalPlace => some none
  | .optionalExpr => some none
  | .optionalStmt => some none
  | .exprs => some []
  | .decls => some []
  | .text => none
  | .place => none
  | .expr => none
  | .stmts => none

/-- What a value means in a role. -/
def Reading.play (r : Reading) : (role : Role) → Except Fault role.Content
  | .text => r.text
  | .flag => r.flag
  | .place => r.place
  | .optionalPlace => r.optional Reading.place
  | .expr => r.expr
  | .optionalExpr => r.optional Reading.expr
  | .exprs => r.exprs
  | .optionalStmt => r.optional Reading.stmt
  | .stmts => r.stmts
  | .decls => r.decls

theorem Reading.check_eq (r : Reading) (role : Role) :
    r.check role = (r.play role).map fun _ => () := by
  cases role <;> rfl

/-- A field of a node as it is meant. -/
structure Part where
  name : String
  role : Role
  content : role.Content

/-- The field of a shape that the part fills. -/
def Part.field (part : Part) : String × Role := (part.name, part.role)

/-- However the slot is filled, it is read as the part. -/
structure Slot.Means (slot : Slot) (part : Part) : Prop where
  name : slot.name = part.name
  play : ∀ v, slot.encoder v → v.reading.play part.role = .ok part.content
  missing : slot.omissible = true → part.role.absent? = some part.content

/-- The part is found among the fields, unless it is what its absence stands for. -/
structure Fields.Gives (fields : Fields) (part : Part) : Prop where
  found : ∀ r, fields.entries.lookup part.name = some r → r.play part.role = .ok part.content
  absent : fields.entries.lookup part.name = none → part.role.absent? = some part.content

namespace Fields.Gives

variable {fields : Fields} {name : String} {role : Role} {x : role.Content}

theorem required (h : fields.Gives ⟨name, role, x⟩) (hrole : role.absent? = none) :
    fields.required name (fun r => r.play role) = .ok x := by
  unfold Fields.required
  split
  · next r hr => exact h.found r hr
  · next hr =>
    have habsent : role.absent? = some x := h.absent hr
    rw [hrole] at habsent
    contradiction

theorem defaulted {absent : role.Content} (h : fields.Gives ⟨name, role, x⟩)
    (hrole : role.absent? = some absent) :
    fields.defaulted name (fun r => r.play role) absent = .ok x := by
  unfold Fields.defaulted
  split
  · next r hr => exact h.found r hr
  · next hr =>
    have habsent : role.absent? = some x := h.absent hr
    rw [hrole] at habsent
    rw [Option.some.inj habsent]

end Fields.Gives

/-- The fields give all parts. -/
def Fields.GivesAll (fields : Fields) : List Part → Prop
  | [] => True
  | part :: rest => fields.Gives part ∧ fields.GivesAll rest

theorem Fields.givesAll {fields : Fields} {parts : List Part} (h : ∀ part ∈ parts, fields.Gives part) :
    fields.GivesAll parts := by
  induction parts with
  | nil => trivial
  | cons part rest ih =>
    exact ⟨h part List.mem_cons_self, ih fun p hp => h p (List.mem_cons_of_mem part hp)⟩

/-! ## Entries -/

/-- The entries hold every part, if at all, once, and with the right content. -/
structure Covers (parts : List Part) (entries : List (String × Json)) : Prop where
  play : ∀ part ∈ parts, ∀ v, (part.name, v) ∈ entries → v.reading.play part.role = .ok part.content
  missing : ∀ part ∈ parts, (∀ v, (part.name, v) ∉ entries) → part.role.absent? = some part.content
  once : entries.Pairwise fun a b => a.1 ∈ parts.map Part.name → a.1 ≠ b.1

theorem fieldReadings_eq (entries : List (String × Json)) :
    fieldReadings entries = entries.map fun e => (e.1, e.2.reading) := by
  induction entries with
  | nil => rfl
  | cons e rest ih =>
    rw [fieldReadings, ih]
    rfl

theorem readingsOf_eq (values : List Json) : readingsOf values = values.map Json.reading := by
  induction values with
  | nil => rfl
  | cons v rest ih =>
    rw [readingsOf, ih]
    rfl

theorem mem_of_lookup {α : Type} {name : String} {x : α} {entries : List (String × α)}
    (h : entries.lookup name = some x) : (name, x) ∈ entries := by
  obtain ⟨front, back, rfl, -⟩ := List.lookup_eq_some_iff.mp h
  exact List.mem_append_right _ List.mem_cons_self

namespace Covers

variable {parts : List Part} {entries : List (String × Json)}

theorem gives (h : Covers parts entries) (isArray : Bool) {part : Part} (hpart : part ∈ parts) :
    Fields.Gives ⟨isArray, fieldReadings entries⟩ part where
  found r hr := by
    have hmem := mem_of_lookup hr
    rw [fieldReadings_eq] at hmem
    obtain ⟨⟨name, v⟩, hv, heq⟩ := List.mem_map.mp hmem
    obtain ⟨rfl, rfl⟩ := Prod.mk.inj heq
    exact h.play part hpart v hv
  absent hnone := by
    refine h.missing part hpart fun v hv => ?_
    have hmem : (part.name, v.reading) ∈ fieldReadings entries := by
      rw [fieldReadings_eq]
      exact List.mem_map_of_mem hv
    exact absurd rfl (bne_iff_ne.mp (List.lookup_eq_none_iff.mp hnone _ hmem))

end Covers

/-- Entries are in order if known names occur once and their values can play their roles. -/
theorem checkEntries_ok {parts : List Part} {entries : List (String × Json)}
    (hplay : ∀ part ∈ parts, ∀ v, (part.name, v) ∈ entries →
      v.reading.play part.role = .ok part.content)
    (honce : entries.Pairwise fun a b => a.1 ∈ parts.map Part.name → a.1 ≠ b.1) (seen : List String)
    (hseen : ∀ e ∈ entries, e.1 ∉ seen) :
    Fields.checkEntries (parts.map Part.field) seen (fieldReadings entries) = .ok () := by
  induction entries generalizing seen with
  | nil => rfl
  | cons e rest ih =>
    obtain ⟨hfirst, hrest⟩ := List.pairwise_cons.mp honce
    have hplay' : ∀ part ∈ parts, ∀ v, (part.name, v) ∈ rest →
        v.reading.play part.role = .ok part.content :=
      fun part hpart v hv => hplay part hpart v (List.mem_cons_of_mem e hv)
    show Fields.checkEntries _ seen ((e.1, e.2.reading) :: fieldReadings rest) = _
    rw [Fields.checkEntries]
    split
    · exact ih hplay' hrest seen fun d hd => hseen d (List.mem_cons_of_mem e hd)
    · next role hrole =>
      obtain ⟨part, hpart, heq⟩ := List.mem_map.mp (mem_of_lookup hrole)
      obtain ⟨hname, rfl⟩ := Prod.mk.inj heq
      have hcheck : e.2.reading.check part.role = .ok () := by
        rw [Reading.check_eq, hplay part hpart e.2 (hname ▸ List.mem_cons_self)]
        rfl
      have hnew : seen.contains e.1 = false := by
        simpa using hseen e List.mem_cons_self
      rw [hnew, hcheck]
      -- The name is known from here on, and no later entry has it.
      refine ih hplay' hrest (e.1 :: seen) fun d hd hmem => ?_
      rcases List.mem_cons.mp hmem with heq | hmem
      · exact hfirst d hd (hname ▸ List.mem_map_of_mem hpart) heq.symm
      · exact hseen d (List.mem_cons_of_mem e hd) hmem

theorem Covers.checkEntries {parts : List Part} {entries : List (String × Json)}
    (h : Covers parts entries) :
    Fields.checkEntries (parts.map Part.field) [] (fieldReadings entries) = .ok () :=
  checkEntries_ok h.play h.once [] fun _ _ => List.not_mem_nil

/-! ## Slots -/

theorem Slot.names_eq {slots : List Slot} {parts : List Part}
    (h : List.Forall₂ Slot.Means slots parts) : slots.map Slot.name = parts.map Part.name := by
  induction h with
  | nil => rfl
  | cons hfirst _ ih => rw [List.map_cons, List.map_cons, hfirst.name, ih]

namespace Filled

variable {slots : List Slot} {parts : List Part} {fields : List (String × Json)}

theorem names_sublist (h : Filled slots fields) :
    (fields.map Prod.fst).Sublist (slots.map Slot.name) := by
  induction h with
  | nil => exact .slnil
  | given _ _ ih => exact ih.cons_cons _
  | missing _ _ ih => exact ih.cons _

theorem name_mem (h : Filled slots fields) {e : String × Json} (he : e ∈ fields) :
    e.1 ∈ slots.map Slot.name :=
  h.names_sublist.subset (List.mem_map_of_mem he)

theorem play (h : Filled slots fields) (hmeans : List.Forall₂ Slot.Means slots parts)
    (hnodup : (parts.map Part.name).Nodup) {part : Part} (hpart : part ∈ parts) {v : Json}
    (hv : (part.name, v) ∈ fields) : v.reading.play part.role = .ok part.content := by
  induction h generalizing parts with
  | nil => exact absurd hv List.not_mem_nil
  | @given slot slots fields w hw hfilled ih =>
    obtain _ | ⟨hfirst, hrest⟩ := hmeans
    obtain ⟨hnot, hnodup⟩ := List.nodup_cons.mp hnodup
    rcases List.mem_cons.mp hv with heq | hv
    · obtain ⟨hname, rfl⟩ := Prod.mk.inj heq
      rcases List.mem_cons.mp hpart with rfl | hpart
      · exact hfirst.play v hw
      · rw [← hfirst.name, ← hname] at hnot
        exact absurd (List.mem_map_of_mem hpart) hnot
    · rcases List.mem_cons.mp hpart with rfl | hpart
      · exact absurd (Slot.names_eq hrest ▸ hfilled.name_mem hv) hnot
      · exact ih hrest hnodup hpart hv
  | @missing slot slots fields hslot hfilled ih =>
    obtain _ | ⟨hfirst, hrest⟩ := hmeans
    obtain ⟨hnot, hnodup⟩ := List.nodup_cons.mp hnodup
    rcases List.mem_cons.mp hpart with rfl | hpart
    · exact absurd (Slot.names_eq hrest ▸ hfilled.name_mem hv) hnot
    · exact ih hrest hnodup hpart hv

theorem absent (h : Filled slots fields) (hmeans : List.Forall₂ Slot.Means slots parts) {part : Part}
    (hpart : part ∈ parts) (hnone : ∀ v, (part.name, v) ∉ fields) :
    part.role.absent? = some part.content := by
  induction h generalizing parts with
  | nil =>
    obtain _ | _ := hmeans
    exact absurd hpart List.not_mem_nil
  | @given slot slots fields v hv _ ih =>
    obtain _ | ⟨hfirst, hrest⟩ := hmeans
    rcases List.mem_cons.mp hpart with rfl | hpart
    · refine absurd ?_ (hnone v)
      rw [hfirst.name]
      exact List.mem_cons_self
    · exact ih hrest hpart fun v hv => hnone v (List.mem_cons_of_mem _ hv)
  | missing hslot _ ih =>
    obtain _ | ⟨hfirst, hrest⟩ := hmeans
    rcases List.mem_cons.mp hpart with rfl | hpart
    · exact hfirst.missing hslot
    · exact ih hrest hpart hnone

theorem nothing (h : ∀ slot ∈ slots, slot.omissible = true) : Filled slots [] := by
  induction slots with
  | nil => exact .nil
  | cons slot slots ih =>
    exact .missing (h slot List.mem_cons_self) (ih fun s hs => h s (List.mem_cons_of_mem slot hs))

/-- An array fills the slots in front. -/
theorem ofArray {front back : List Slot} {values : List Json}
    (h : List.Forall₂ (fun slot v => slot.encoder v) front values)
    (hback : ∀ slot ∈ back, slot.omissible = true) :
    Filled (front ++ back) (((front ++ back).map Slot.name).zip values) := by
  induction h with
  | nil =>
    rw [List.zip_nil_right]
    exact nothing hback
  | cons hv _ ih => exact .given hv ih

end Filled

/-- The slots filled in any order, with entries of other names among them. -/
def Holds (slots : List Slot) (entries : List (String × Json)) : Prop :=
  ∃ fields others, Filled slots fields ∧ (∀ e ∈ others, e.1 ∉ slots.map Slot.name) ∧
    entries.Perm (fields ++ others)

theorem Filled.holds {slots : List Slot} {fields : List (String × Json)} (h : Filled slots fields) :
    Holds slots fields :=
  ⟨fields, [], h, nofun, by rw [List.append_nil]⟩

/-- Names of slots occur once at most. -/
theorem Holds.once {slots : List Slot} {entries : List (String × Json)} (h : Holds slots entries)
    (hnodup : (slots.map Slot.name).Nodup) :
    entries.Pairwise fun a b => a.1 ∈ slots.map Slot.name → a.1 ≠ b.1 := by
  obtain ⟨fields, others, hfilled, hothers, hperm⟩ := h
  -- The order of the entries does not matter for this, so they can be taken as fields and others.
  have hfields : (fields.map Prod.fst).Nodup := hnodup.sublist hfilled.names_sublist
  refine (hperm.pairwise_iff fun hab ha hb => ?_).mpr (List.pairwise_append.mpr ⟨?_, ?_, ?_⟩)
  · exact hab (hb ▸ ha) hb.symm
  · refine (List.pairwise_map.mp hfields).imp fun hne _ => ?_
    exact hne
  · refine List.pairwise_of_forall_mem_list fun a ha b _ hknown => ?_
    exact absurd hknown (hothers a ha)
  · intro a ha b hb hknown heq
    exact hothers b hb (heq ▸ hknown)

theorem Holds.covers {slots : List Slot} {parts : List Part} {entries : List (String × Json)}
    (h : Holds slots entries) (hmeans : List.Forall₂ Slot.Means slots parts)
    (hnodup : (parts.map Part.name).Nodup) : Covers parts entries := by
  have hnames := Slot.names_eq hmeans
  have honce := h.once (hnames ▸ hnodup)
  obtain ⟨fields, others, hfilled, hothers, hperm⟩ := h
  rw [hnames] at hothers honce
  have hmem : ∀ part ∈ parts, ∀ v, (part.name, v) ∈ entries → (part.name, v) ∈ fields := by
    intro part hpart v hv
    rcases List.mem_append.mp (hperm.subset hv) with hv | hv
    · exact hv
    · exact absurd (List.mem_map_of_mem hpart) (hothers _ hv)
  refine ⟨fun part hpart v hv => hfilled.play hmeans hnodup hpart (hmem part hpart v hv), ?_, honce⟩
  intro part hpart hnone
  refine hfilled.absent hmeans hpart fun v hv => hnone v ?_
  exact hperm.symm.subset (List.mem_append_left _ hv)

/-! ## Tags -/

/-- The key is found once among the entries, if it has not been found before. -/
inductive Finds (key : String) (encoder : Encoder) : Bool → List (String × Json) → Prop
  | done : Finds key encoder true []
  | pass {found : Bool} {name : String} {v : Json} {rest : List (String × Json)} (hname : name ≠ key)
      (h : Finds key encoder found rest) : Finds key encoder found ((name, v) :: rest)
  | take {v : Json} {rest : List (String × Json)} (hv : encoder v) (h : Finds key encoder true rest) :
      Finds key encoder false ((key, v) :: rest)

namespace Finds

variable {key : String} {encoder : Encoder} {entries : List (String × Json)}

theorem of_none (h : ∀ e ∈ entries, e.1 ≠ key) : Finds key encoder true entries := by
  induction entries with
  | nil => exact .done
  | cons e rest ih =>
    exact .pass (h e List.mem_cons_self) (ih fun d hd => h d (List.mem_cons_of_mem e hd))

theorem of_filter {v : Json} (hv : encoder v) (h : entries.filter (fun e => e.1 = key) = [(key, v)]) :
    Finds key encoder false entries := by
  induction entries with
  | nil => contradiction
  | cons e rest ih =>
    by_cases hkey : e.1 = key
    · rw [List.filter_cons_of_pos (by simpa using hkey)] at h
      obtain ⟨rfl, hrest⟩ := List.cons.inj h
      refine .take hv (of_none fun d hd heq => ?_)
      have hmem : d ∈ rest.filter (fun e => e.1 = key) := List.mem_filter.mpr ⟨hd, decide_eq_true heq⟩
      rw [hrest] at hmem
      exact List.not_mem_nil hmem
    · rw [List.filter_cons_of_neg (by simpa using hkey)] at h
      exact .pass hkey (ih h)

theorem findTag {τ : Type} {read : Reading → Except Fault τ} {tag : τ} {found : Bool}
    (h : Finds key encoder found entries) (hread : ∀ v, encoder v → read v.reading = .ok tag) :
    findTag key read (if found then some tag else none) (fieldReadings entries) = .ok tag := by
  induction h with
  | done => rfl
  -- The tag may or may not have been found before; an entry of another name changes neither.
  | @pass found name v rest hname _ ih =>
    show Document.findTag key read _ ((name, v.reading) :: fieldReadings rest) = _
    cases found with
    | true => exact (if_neg hname).trans ih
    | false => exact (if_neg hname).trans ih
  | @take v rest hv _ ih =>
    refine Eq.trans (if_pos rfl) ?_
    show (read v.reading >>= fun tag => Document.findTag key read (some tag) (fieldReadings rest)) = _
    rw [hread v hv]
    exact ih

end Finds

/-- The tag can be told from the other entries. -/
theorem Holds.untag {key : String} {encoder : Encoder} {slots : List Slot}
    {entries : List (String × Json)} (h : Holds (.required key encoder :: slots) entries)
    (hkey : key ∉ slots.map Slot.name) :
    Finds key encoder false entries ∧ Holds slots (entries.filter fun e => e.1 ≠ key) := by
  obtain ⟨_, others, hfilled, hothers, hperm⟩ := h
  obtain _ | ⟨hv, hfilled⟩ | hmissing := hfilled
  · next fields v =>
    have hne : ∀ e ∈ fields ++ others, e.1 ≠ key := by
      rintro e he rfl
      rcases List.mem_append.mp he with he | he
      · exact hkey (hfilled.name_mem he)
      · exact hothers e he List.mem_cons_self
    constructor
    · refine .of_filter hv (List.perm_singleton.mp ((hperm.filter _).trans (.of_eq ?_)))
      rw [List.cons_append, List.filter_cons_of_pos (by simp [Slot.required]), List.filter_eq_nil_iff.mpr]
      · rfl
      · simpa using hne
    · refine ⟨fields, others, hfilled, fun e he hmem => hothers e he (List.mem_cons_of_mem _ hmem), ?_⟩
      refine (hperm.filter _).trans (.of_eq ?_)
      rw [List.cons_append, List.filter_cons_of_neg (by simp [Slot.required]), List.filter_eq_self.mpr]
      simpa using hne
  · contradiction

/-! ## Objects and arrays -/

section Node

variable {slots : List Slot} {parts : List Part} {v : Json}

theorem Encoder.array.values {slots : List Slot} (h : Encoder.array slots v) :
    ∃ values, v = .array values ∧ values.length ≤ slots.length ∧
      Filled slots ((slots.map Slot.name).zip values) := by
  obtain ⟨front, back, values, rfl, hback, hfront, rfl⟩ := h
  refine ⟨values, rfl, ?_, .ofArray hfront hback⟩
  rw [← hfront.length_eq, List.length_append]
  exact Nat.le_add_right _ _

/-- A node without a tag. -/
theorem Encoder.node.plain (h : Encoder.node slots v) (hmeans : List.Forall₂ Slot.Means slots parts)
    (hnodup : (parts.map Part.name).Nodup) :
    (∃ entries, v = .object entries ∧ Covers parts entries) ∨
      ∃ values, v = .array values ∧ values.length ≤ parts.length ∧
        Covers parts ((parts.map Part.name).zip values) := by
  rcases h with ⟨fields, others, entries, hfilled, hothers, hperm, rfl⟩ | h
  · exact .inl ⟨entries, rfl, Holds.covers ⟨fields, others, hfilled, hothers, hperm⟩ hmeans hnodup⟩
  · obtain ⟨values, rfl, hlength, hfilled⟩ := h.values
    rw [Slot.names_eq hmeans] at hfilled
    exact .inr ⟨values, rfl, hmeans.length_eq ▸ hlength, hfilled.holds.covers hmeans hnodup⟩

/-- A node with a tag. -/
theorem Encoder.node.tagged {key : String} {encoder : Encoder}
    (h : Encoder.node (.required key encoder :: slots) v)
    (hmeans : List.Forall₂ Slot.Means slots parts) (hnodup : (key :: parts.map Part.name).Nodup) :
    (∃ entries, v = .object entries ∧ Finds key encoder false entries ∧
        Covers parts (entries.filter fun e => e.1 ≠ key)) ∨
      ∃ first values, v = .array (first :: values) ∧ encoder first ∧ values.length ≤ parts.length ∧
        Covers parts ((parts.map Part.name).zip values) := by
  obtain ⟨hkey, hnodup⟩ := List.nodup_cons.mp hnodup
  rw [← Slot.names_eq hmeans] at hkey
  rcases h with ⟨fields, others, entries, hfilled, hothers, hperm, rfl⟩ | h
  · obtain ⟨hfinds, hholds⟩ := Holds.untag ⟨fields, others, hfilled, hothers, hperm⟩ hkey
    exact .inl ⟨entries, rfl, hfinds, hholds.covers hmeans hnodup⟩
  · obtain ⟨values, rfl, hlength, hfilled⟩ := h.values
    cases values with
    | nil => cases hfilled with | missing hmissing _ => contradiction
    | cons first values =>
      have hrest : encoder first ∧ Filled slots ((slots.map Slot.name).zip values) := by
        cases hfilled with
        | given hv hrest => exact ⟨hv, hrest⟩
        | missing hmissing _ => contradiction
      rw [Slot.names_eq hmeans] at hrest
      refine .inr ⟨first, values, rfl, hrest.1, ?_, hrest.2.holds.covers hmeans hnodup⟩
      exact hmeans.length_eq ▸ Nat.le_of_succ_le_succ hlength

theorem Covers.ofObject {entries : List (String × Json)} (h : Covers parts entries) :
    Fields.ofObject (parts.map Part.field) (fieldReadings entries)
      = .ok ⟨false, fieldReadings entries⟩ := by
  rw [Fields.ofObject, h.checkEntries]
  rfl

theorem Covers.ofArray {values : List Json} (h : Covers parts ((parts.map Part.name).zip values))
    (hlength : values.length ≤ parts.length) :
    Fields.ofArray (parts.map Part.field) (readingsOf values)
      = .ok ⟨true, fieldReadings ((parts.map Part.name).zip values)⟩ := by
  have hnames : (parts.map Part.field).map (·.1) = parts.map Part.name := by
    rw [List.map_map]
    rfl
  have hentries : (parts.map Part.name).zip (readingsOf values)
      = fieldReadings ((parts.map Part.name).zip values) := by
    rw [fieldReadings_eq, readingsOf_eq, List.zip_map_right]
    rfl
  have hshort : ¬ (parts.map Part.field).length < (readingsOf values).length := by
    rw [readingsOf_eq, List.length_map, List.length_map]
    omega
  rw [Fields.ofArray, hnames, hentries, h.checkEntries]
  show (if (parts.map Part.field).length < (readingsOf values).length then _ else _) = _
  rw [if_neg hshort]
  rfl

theorem Covers.givesAll {entries : List (String × Json)} (h : Covers parts entries) (isArray : Bool) :
    Fields.GivesAll ⟨isArray, fieldReadings entries⟩ parts :=
  Fields.givesAll fun _ hpart => h.gives isArray hpart

theorem names_of_shape {shape : Shape} (h : shape = parts.map Part.field) :
    shape.map Prod.fst = parts.map Part.name := by
  rw [h, List.map_map]
  rfl

/-- A node with a tag is read as whatever fields that give its parts are read as. -/
theorem Encoder.node.read_tagged {key : String} {encoder : Encoder}
    (h : Encoder.node (.required key encoder :: slots) v) {τ α : Type}
    {read : Reading → Except Fault τ} {tag : τ} (hread : ∀ v, encoder v → read v.reading = .ok tag)
    (shape : τ → Shape) (hnodup : (key :: (shape tag).map Prod.fst).Nodup)
    (hmeans : List.Forall₂ Slot.Means slots parts) (hshape : shape tag = parts.map Part.field)
    (node : τ → Fields → Except Fault α) {x : α}
    (hnode : ∀ fields : Fields, fields.GivesAll parts → node tag fields = .ok x) :
    (∃ entries, v = .object entries ∧
        (taggedObject key read shape (fieldReadings entries) >>= fun r => node r.1 r.2) = .ok x) ∨
      ∃ values, v = .array values ∧
        (taggedArray key read shape (readingsOf values) >>= fun r => node r.1 r.2) = .ok x := by
  rw [names_of_shape hshape] at hnodup
  rcases h.tagged hmeans hnodup with
    ⟨entries, rfl, hfinds, hcovers⟩ | ⟨first, values, rfl, hfirst, hlength, hcovers⟩
  · refine .inl ⟨entries, rfl, ?_⟩
    -- Of an object the reader takes the tag out before it looks at the other fields.
    have hfilter : (fieldReadings entries).filter (fun e => e.1 ≠ key)
        = fieldReadings (entries.filter fun e => e.1 ≠ key) := by
      rw [fieldReadings_eq, fieldReadings_eq, List.filter_map]
      rfl
    rw [taggedObject, show findTag key read none (fieldReadings entries) = .ok tag from
      hfinds.findTag hread]
    show (Fields.ofObject (shape tag) ((fieldReadings entries).filter fun e => e.1 ≠ key) >>= fun fields =>
      pure (tag, fields)) >>= _ = _
    rw [hfilter, hshape, hcovers.ofObject]
    exact hnode _ (hcovers.givesAll false)
  · refine .inr ⟨first :: values, rfl, ?_⟩
    show (read first.reading >>= fun tag => Fields.ofArray (shape tag) (readingsOf values) >>= fun fields =>
      pure (tag, fields)) >>= _ = _
    rw [hread first hfirst]
    show (Fields.ofArray (shape tag) (readingsOf values) >>= fun fields => pure (tag, fields)) >>= _ = _
    rw [hshape, hcovers.ofArray hlength]
    exact hnode _ (hcovers.givesAll true)

end Node

end Semant.Document
