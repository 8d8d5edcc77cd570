import Semant.Document.Reader
import Semant.Proofs.Document.Nodes
import Semant.Proofs.Json.Parsing

/-!
# Reading documents back

A document is read from lexemes, and not from a value: items are read one after the other, and fields
that a document does not have are skimmed. The lexemes of an encoding are known
(`Semant.Proofs.Json.Grammar`), so each step of the reader is followed on the lexemes of one field or
one element, whatever comes behind it.
-/

set_option autoImplicit false

namespace Semant.Document

open Json

/-! ## Items -/

namespace Slot.Means

variable {name : String}

theorem stmtList {body : List Stmt} :
    (Slot.required name (.list (Stmt.encoders body))).Means ⟨name, .stmts, body⟩ :=
  stmts (Stmt.Encodes.readAll body)

theorem decls {params : List Decl} :
    (Slot.defaulted name (params.map fun d => .node d.slots)).Means ⟨name, .decls, params⟩ where
  name := rfl
  play v hv := by
    obtain ⟨values, rfl, hvalues⟩ := hv
    refine read_list (?_ : List.Forall₂ (fun d v => v.reading.decl = .ok d) params values)
    exact (List.forall₂_map_left_iff.mp hvalues).imp fun d v hv => d.read v hv
  missing h := by
    cases params with
    | nil => rfl
    | cons d params => contradiction

end Slot.Means

/-- An item has a tag, and further fields that give it. -/
theorem Item.slots_means (item : Item) :
    ∃ tag slots parts, item.slots = .required "item" (.text (ItemTag.name tag)) :: slots ∧
      List.Forall₂ Slot.Means slots parts ∧ tag.shape = parts.map Part.field ∧
      ∀ fields : Fields, fields.GivesAll parts → itemOf tag fields = .ok item := by
  cases item with
  | imports path place =>
    refine ⟨.imports, _, _, rfl, .cons .text (.cons .place .nil), rfl, fun fields hf => ?_⟩
    obtain ⟨hpath, hplace, -⟩ := hf
    simp only [itemOf, hpath.text, hplace.place]
    rfl
  | data decl =>
    refine ⟨.data, _, _, rfl, decl.slots_means, rfl, fun fields hf => ?_⟩
    rw [itemOf, Decl.declOf hf]
    rfl
  | function isIterator returns name place namePlace params body =>
    refine ⟨.function, _, _, rfl, .cons .flag (.cons .text (.cons .text (.cons .place
      (.cons .optionalPlace (.cons .decls (.cons .stmtList .nil)))))), rfl, fun fields hf => ?_⟩
    obtain ⟨hiterator, hreturns, hname, hplace, hnamePlace, hparams, hbody, -⟩ := hf
    simp only [itemOf, hiterator.flag, hreturns.text, hname.text, hplace.place, hnamePlace.optionalPlace,
      hparams.decls, hbody.stmts]
    rfl
  | start place body =>
    refine ⟨.start, _, _, rfl, .cons .place (.cons .stmtList .nil), rfl, fun fields hf => ?_⟩
    obtain ⟨hplace, hbody, -⟩ := hf
    simp only [itemOf, hplace.place, hbody.stmts]
    rfl

theorem readText_ok {s : String} {l : Lexeme} (h : LexedString s l) (rest : List Lexeme) :
    readText (l :: rest) = .ok (s, rest) := by
  obtain ⟨parts, hparts, rfl⟩ := h
  rw [readText, hparts]
  rfl

theorem readItemTag_ok {tag : ItemTag} {l : Lexeme} (h : LexedString tag.name l) (rest : List Lexeme) :
    readItemTag (l :: rest) = .ok (tag, rest) := by
  have hname : ItemTag.ofName tag.name = .ok tag := by cases tag <;> rfl
  rw [readItemTag, readText_ok h]
  show (ItemTag.ofName tag.name >>= fun tag => pure (tag, rest)) = _
  rw [hname]
  rfl

section Fields

variable {fuel depth : Nat} {tag : ItemTag} {key : String} {v : Json} {ls : List Lexeme}

theorem readItemField_tag (h : LexedField "item" v.Lexed ls) (hv : Encoder.text tag.name v)
    (done : List (String × Json)) (rest : List Lexeme) :
    readItemField fuel depth none done (ls ++ rest) = .ok (some tag, done, rest) := by
  obtain ⟨back, hback, -, hkey⟩ := h.readKey
  obtain rfl := hv
  obtain ⟨l, hl, rfl⟩ := hback
  rw [readItemField, hkey]
  show (readItemTag (l :: rest) >>= fun r => pure (some r.1, done, r.2)) = _
  rw [readItemTag_ok hl]
  rfl

theorem readItemField_other (h : LexedField key v.Lexed ls) (hkey : key ≠ "item")
    (hdepth : v.depth ≤ depth) (hfits : ∀ n ∈ v.numerals, n.fitsDouble = true) (hfuel : ls.length ≤ fuel)
    (found : Option ItemTag) (done : List (String × Json)) (rest : List Lexeme) :
    readItemField fuel depth found done (ls ++ rest) = .ok (found, (key, v) :: done, rest) := by
  obtain ⟨back, hback, hlength, hread⟩ := h.readKey
  have hvalue := Lexed.readValue v fuel depth hback hdepth hfits (by omega) rest
  rw [readItemField, hread]
  show (if key = "item" then _ else _) = _
  rw [if_neg hkey]
  show (readValue fuel depth (back ++ rest) >>= fun r => pure (found, (key, r.1) :: done, r.2)) = _
  rw [hvalue]
  rfl

end Fields

/-- The tag of an item, once it is found. -/
def tagIf (tag : ItemTag) (found : Bool) : Option ItemTag := if found then some tag else none

/-- The fields of an item apart from its tag. -/
abbrev untagged (entries : List (String × Json)) : List (String × Json) :=
  entries.filter fun e => e.1 ≠ "item"

theorem untagged_cons (e : String × Json) (entries done : List (String × Json)) :
    (untagged entries).reverse ++ (untagged [e] ++ done) = (untagged (e :: entries)).reverse ++ done := by
  unfold untagged
  by_cases hkey : e.1 = "item"
  · simp [hkey]
  · simp [hkey]

/-- One field of an item is read: it is the tag, or it is kept for later. -/
theorem Finds.readItemField {tag : ItemTag} {found : Bool} {key : String} {v : Json}
    {entries : List (String × Json)} (h : Finds "item" (.text tag.name) found ((key, v) :: entries))
    {fuel depth : Nat} {ls : List Lexeme} (hls : LexedField key v.Lexed ls) (hdepth : v.depth ≤ depth)
    (hfits : ∀ n ∈ v.numerals, n.fitsDouble = true) (hfuel : ls.length ≤ fuel)
    (done : List (String × Json)) (rest : List Lexeme) :
    ∃ found', Finds "item" (.text tag.name) found' entries ∧
      readItemField fuel depth (tagIf tag found) done (ls ++ rest)
        = .ok (tagIf tag found', untagged [(key, v)] ++ done, rest) := by
  cases h with
  | pass hkey h =>
    refine ⟨found, h, ?_⟩
    have hkept : untagged [(key, v)] = [(key, v)] := List.filter_cons_of_pos (by simpa using hkey)
    rw [readItemField_other hls hkey hdepth hfits hfuel, hkept]
    rfl
  | take hv h => exact ⟨true, h, readItemField_tag hls hv done rest⟩

theorem Finds.readItemFields {tag : ItemTag} {entries : List (String × Json)} :
    {found : Bool} → Finds "item" (.text tag.name) found entries → {fuel depth : Nat} →
    {ls : List Lexeme} → LexedFields entries ls → fieldsDepth entries ≤ depth →
    (∀ n ∈ fieldNumerals entries, n.fitsDouble = true) → ls.length + 1 ≤ fuel →
    (done : List (String × Json)) → (rest : List Lexeme) →
    readItemFields depth fuel (tagIf tag found) done (ls ++ .closeObject :: rest)
      = .ok (some tag, (untagged entries).reverse ++ done, rest) := by
  induction entries with
  | nil =>
    intro found h fuel depth ls hls _ _ hfuel done rest
    obtain rfl := hls
    cases h
    cases fuel with
    | zero => exact absurd hfuel (Nat.not_succ_le_zero _)
    | succ fuel => rfl
  | cons e entries ih =>
    intro found h fuel depth ls hls hdepth hfits hfuel done rest
    obtain ⟨front, more, hfront, hmore, rfl⟩ := hls
    have hmax := Nat.max_le.mp hdepth
    have hnumerals := List.forall_mem_append.mp hfits
    simp only [List.length_cons, List.length_append] at hfuel
    cases fuel with
    | zero => exact absurd hfuel (Nat.not_succ_le_zero _)
    | succ fuel =>
      have hlength : front.length ≤ fuel := by omega
      have hlength' : more.length + 1 ≤ fuel := by omega
      obtain ⟨found', h', hone⟩ := h.readItemField hfront hmax.1 hnumerals.1 hlength done
        (more ++ .closeObject :: rest)
      -- If the field was the tag, nothing is added to what is done.
      have hmany := ih h' hmore hmax.2 hnumerals.2 hlength' (untagged [e] ++ done) rest
      rw [untagged_cons] at hmany
      rw [List.cons_append, List.append_assoc]
      show (Document.readItemField fuel depth (tagIf tag found) done _ >>= fun r =>
        Document.readItemFields depth fuel r.1 r.2.1 r.2.2) = _
      rw [hone]
      exact hmany

section Steps

variable {fuel depth : Nat} {tag : ItemTag} {fields : Fields} {item : Item} {ls ms rest : List Lexeme}

theorem readItem_object {found : Option ItemTag} {front entries : List (String × Json)}
    (hone : readItemField fuel depth none [] ls = .ok (found, front, ms))
    (hmany : readItemFields depth fuel found front ms = .ok (some tag, entries.reverse, rest))
    (hfields : Fields.ofObject tag.shape (fieldReadings entries) = .ok fields)
    (hitem : itemOf tag fields = .ok item) :
    readItem fuel (depth + 1) (.openObject :: ls) = .ok (item, rest) := by
  rw [readItem, hone]
  · show (readItemFields depth fuel found front ms >>= _) = _
    rw [hmany]
    show (Fields.ofObject tag.shape (fieldReadings entries.reverse.reverse) >>= fun fields =>
      itemOf tag fields >>= fun item => pure (item, rest)) = _
    rw [List.reverse_reverse, hfields]
    show (itemOf tag fields >>= fun item => pure (item, rest)) = _
    rw [hitem]
    rfl
  · rintro more rfl
    contradiction

theorem readItem_array {values : List Json} (htag : readItemTag ls = .ok (tag, ms))
    (hvalues : readElements fuel depth [] ms = .ok (values, rest))
    (hfields : Fields.ofArray tag.shape (readingsOf values) = .ok fields)
    (hitem : itemOf tag fields = .ok item) :
    readItem fuel (depth + 1) (.openArray :: ls) = .ok (item, rest) := by
  rw [readItem, htag]
  · show (readElements fuel depth [] ms >>= fun r =>
      Fields.ofArray tag.shape (readingsOf r.1) >>= fun fields =>
        itemOf tag fields >>= fun item => pure (item, r.2)) = _
    rw [hvalues]
    show (Fields.ofArray tag.shape (readingsOf values) >>= fun fields =>
      itemOf tag fields >>= fun item => pure (item, rest)) = _
    rw [hfields]
    show (itemOf tag fields >>= fun item => pure (item, rest)) = _
    rw [hitem]
    rfl
  · rintro more rfl
    contradiction

end Steps

/-- An item is read back from the lexemes of its encodings. -/
theorem readItem_ok {item : Item} {v : Json} (h : Encoder.node item.slots v) {fuel depth : Nat}
    {ls : List Lexeme} (hls : v.Lexed ls) (hdepth : v.depth ≤ depth)
    (hfits : ∀ n ∈ v.numerals, n.fitsDouble = true) (hfuel : ls.length ≤ fuel) (rest : List Lexeme) :
    readItem fuel depth (ls ++ rest) = .ok (item, rest) := by
  obtain ⟨tag, slots, parts, hslots, hmeans, hshape, hitem⟩ := item.slots_means
  rw [hslots] at h
  have hnodup : ("item" :: tag.shape.map Prod.fst).Nodup := by cases tag <;> decide
  rw [names_of_shape hshape] at hnodup
  rcases h.tagged hmeans hnodup with
    ⟨entries, rfl, hfinds, hcovers⟩ | ⟨first, values, rfl, hfirst, hlength, hcovers⟩
  · cases depth with
    | zero => exact absurd hdepth (Nat.not_succ_le_zero _)
    | succ depth =>
      cases entries with
      | nil => cases hfinds
      | cons e entries =>
        obtain ⟨front, more, hfront, hmore, rfl⟩ := hls
        have hmax := Nat.max_le.mp (Nat.le_of_succ_le_succ hdepth)
        have hnumerals := List.forall_mem_append.mp hfits
        simp only [List.length_cons, List.length_append, List.length_nil] at hfuel
        have hlength : front.length ≤ fuel := by omega
        have hlength' : more.length + 1 ≤ fuel := by omega
        -- The first field is not behind a comma, so it is read apart from the others.
        obtain ⟨found, hmany, hone⟩ := hfinds.readItemField hfront hmax.1 hnumerals.1 hlength []
          (more ++ .closeObject :: rest)
        have hread := hmany.readItemFields hmore hmax.2 hnumerals.2 hlength' (untagged [e] ++ []) rest
        rw [untagged_cons, List.append_nil (List.reverse _)] at hread
        have hfields := hcovers.ofObject
        rw [← hshape] at hfields
        simpa using readItem_object hone hread hfields (hitem _ (hcovers.givesAll false))
  · cases depth with
    | zero => exact absurd hdepth (Nat.not_succ_le_zero _)
    | succ depth =>
      obtain ⟨front, more, hfront, hmore, rfl⟩ := hls
      obtain rfl := hfirst
      obtain ⟨l, hl, rfl⟩ := hfront
      have hmax := Nat.max_le.mp (Nat.le_of_succ_le_succ hdepth)
      have hnumerals := List.forall_mem_append.mp hfits
      simp only [List.length_cons, List.length_append, List.length_nil] at hfuel
      have hvalues := LexedElements.readElements values fuel depth hmore hmax.2 hnumerals.2 (by omega) [] rest
      have hfields := hcovers.ofArray hlength
      rw [← hshape] at hfields
      simpa using readItem_array (readItemTag_ok hl _) hvalues hfields (hitem _ (hcovers.givesAll true))

/-! ## Lists of items -/

/-- The ways to write a list of items. -/
abbrev Item.listEncoder (items : List Item) : Encoder :=
  .list (items.map fun item => .node item.slots)

theorem readMoreItems_ok {items : List Item} {values : List Json}
    (h : List.Forall₂ (fun item v => Encoder.node (Item.slots item) v) items values) :
    {fuel depth : Nat} → {ls : List Lexeme} → LexedElements values ls → elementsDepth values ≤ depth →
    (∀ n ∈ elementNumerals values, n.fitsDouble = true) → ls.length + 1 ≤ fuel →
    (done : List Item) → (rest : List Lexeme) →
    readMoreItems depth fuel done (ls ++ .closeArray :: rest) = .ok (done.reverse ++ items, rest) := by
  -- on the items with their values; `done` grows at the front, hence the reversal
  induction h with
  | nil =>
    intro fuel depth ls hls _ _ hfuel done rest
    obtain rfl := hls
    cases fuel with
    | zero => exact absurd hfuel (Nat.not_succ_le_zero _)
    | succ fuel =>
      rw [List.append_nil]
      rfl
  | @cons item v items values hv _ ih =>
    intro fuel depth ls hls hdepth hfits hfuel done rest
    obtain ⟨front, more, hfront, hmore, rfl⟩ := hls
    have hmax := Nat.max_le.mp hdepth
    have hnumerals := List.forall_mem_append.mp hfits
    simp only [List.length_cons, List.length_append] at hfuel
    cases fuel with
    | zero => exact absurd hfuel (Nat.not_succ_le_zero _)
    | succ fuel =>
      have hone := readItem_ok hv hfront hmax.1 hnumerals.1 (by omega : front.length ≤ fuel)
        (more ++ .closeArray :: rest)
      have hmany := ih hmore hmax.2 hnumerals.2 (by omega : more.length + 1 ≤ fuel) (item :: done) rest
      rw [List.cons_append, List.append_assoc]
      show (readItem fuel depth (front ++ (more ++ .closeArray :: rest)) >>= fun r =>
        readMoreItems depth fuel (r.1 :: done) r.2) = _
      rw [hone]
      refine Eq.trans hmany ?_
      rw [List.reverse_cons, List.append_assoc]
      rfl

theorem readItems_ok {items : List Item} {v : Json} (h : Item.listEncoder items v) {fuel depth : Nat}
    {ls : List Lexeme} (hls : v.Lexed ls) (hdepth : v.depth ≤ depth + 1)
    (hfits : ∀ n ∈ v.numerals, n.fitsDouble = true) (hfuel : ls.length ≤ fuel) (rest : List Lexeme) :
    readItems fuel depth (ls ++ rest) = .ok (items, rest) := by
  obtain ⟨values, rfl, hvalues⟩ := h
  have hitems := List.forall₂_map_left_iff.mp hvalues
  cases hitems with
  | nil =>
    obtain rfl := hls
    rfl
  | @cons item v items values hv hmany =>
    obtain ⟨front, more, hfront, hmore, rfl⟩ := hls
    have hmax := Nat.max_le.mp (Nat.le_of_succ_le_succ hdepth)
    have hnumerals := List.forall_mem_append.mp hfits
    simp only [List.length_cons, List.length_append, List.length_nil] at hfuel
    have hone := readItem_ok hv hfront hmax.1 hnumerals.1 (by omega : front.length ≤ fuel)
      (more ++ .closeArray :: rest)
    have hrest := readMoreItems_ok hmany hmore hmax.2 hnumerals.2 (by omega : more.length + 1 ≤ fuel)
      [item] rest
    have hhead := hfront.head_ne_close (more ++ .closeArray :: rest)
    simp only [List.cons_append, List.append_assoc, List.nil_append]
    rw [readItems, hone]
    · exact hrest
    · intro ls heq
      exact hhead (heq ▸ rfl)

/-! ## Fields of a document -/

/-- What becomes of a draft when a field of the document is read. -/
def Draft.take (d : Document) (draft : Draft) (e : String × Json) : Draft :=
  if e.1 = "file" then { draft with file := some d.file }
  else if e.1 = "items" then { draft with items := some d.items }
  else draft

/-- What a field of a document may be. -/
def FieldOf (d : Document) (e : String × Json) : Prop :=
  (e.1 = "file" → Encoder.text d.file e.2) ∧ (e.1 = "items" → Item.listEncoder d.items e.2)

/-- The draft does not know the field yet. -/
def Draft.Lacks (draft : Draft) (name : String) : Prop :=
  (name = "file" → draft.file = none) ∧ (name = "items" → draft.items = none)

theorem readDocumentField_ok {d : Document} {key : String} {v : Json} (h : FieldOf d (key, v))
    {draft : Draft} (hdraft : draft.Lacks key) {fuel depth : Nat} {ls : List Lexeme}
    (hls : LexedField key v.Lexed ls) (hdepth : v.depth ≤ depth + 1)
    (hfits : ∀ n ∈ v.numerals, n.fitsDouble = true) (hfuel : ls.length ≤ fuel) (rest : List Lexeme) :
    readDocumentField fuel depth draft (ls ++ rest) = .ok (draft.take d (key, v), rest) := by
  obtain ⟨back, hback, hlength, hread⟩ := hls.readKey
  rw [readDocumentField, hread]
  show (if key = "file" then _ else _) = _
  by_cases hfile : key = "file"
  · obtain rfl := h.1 hfile
    obtain ⟨l, hl, rfl⟩ := hback
    rw [if_pos hfile, hdraft.1 hfile]
    show (readText (l :: rest) >>= fun r => pure ({ draft with file := some r.1 }, r.2)) = _
    rw [readText_ok hl, Draft.take, if_pos hfile]
    rfl
  · rw [if_neg hfile, Draft.take, if_neg hfile]
    by_cases hitems : key = "items"
    · have hvalue := readItems_ok (h.2 hitems) hback hdepth hfits (by omega : back.length ≤ fuel) rest
      rw [if_pos hitems, if_pos hitems, hdraft.2 hitems]
      show (readItems fuel depth (back ++ rest) >>= fun r =>
        pure ({ draft with items := some r.1 }, r.2)) = _
      rw [hvalue]
      rfl
    -- Fields with other names are skimmed.
    · have hskim : skim (back ++ rest) = .ok rest := Lexed.skim v hback [] rest
      rw [if_neg hitems, if_neg hitems]
      show (skim (back ++ rest) >>= fun rest => pure (draft, rest)) = _
      rw [hskim]
      rfl

theorem Draft.take_file (d : Document) (draft : Draft) (e : String × Json) :
    (draft.take d e).file = if e.1 = "file" then some d.file else draft.file := by
  unfold take
  split
  · rfl
  · split
    · rfl
    · rfl

theorem Draft.take_items (d : Document) (draft : Draft) (e : String × Json) :
    (draft.take d e).items = if e.1 = "items" then some d.items else draft.items := by
  unfold take
  split
  · next hfile => rw [hfile, if_neg (by decide)]
  · split
    · rfl
    · rfl

theorem Draft.Lacks.take {d : Document} {draft : Draft} {name : String} (h : draft.Lacks name)
    {e : String × Json} (hne : name ∈ ["file", "items"] → e.1 ≠ name) : (draft.take d e).Lacks name := by
  constructor
  · rintro rfl
    rw [Draft.take_file, if_neg (hne (by decide))]
    exact h.1 rfl
  · rintro rfl
    rw [Draft.take_items, if_neg (hne (by decide))]
    exact h.2 rfl

/-- What is known after all fields: of each whether it occurs. -/
theorem Draft.foldl_take {d : Document} {α : Type} {get : Draft → Option α} {key : String} {x : α}
    (hstep : ∀ draft e, get (Draft.take d draft e) = if e.1 = key then some x else get draft)
    (entries : List (String × Json)) (draft : Draft) :
    get (entries.foldl (Draft.take d) draft)
      = if key ∈ entries.map Prod.fst then some x else get draft := by
  induction entries generalizing draft with
  | nil => rfl
  | cons e entries ih =>
    rw [List.foldl_cons, ih, hstep, List.map_cons]
    by_cases hrest : key ∈ entries.map Prod.fst
    · rw [if_pos hrest, if_pos (List.mem_cons_of_mem _ hrest)]
    · rw [if_neg hrest]
      by_cases hkey : e.1 = key
      · rw [if_pos hkey, if_pos (hkey ▸ List.mem_cons_self)]
      · rw [if_neg hkey, if_neg fun hmem => (List.mem_cons.mp hmem).elim (fun heq => hkey heq.symm) hrest]

theorem readDocumentFields_ok {d : Document} {entries : List (String × Json)} :
    (∀ e ∈ entries, FieldOf d e) →
    (entries.Pairwise fun a b => a.1 ∈ ["file", "items"] → a.1 ≠ b.1) →
    {draft : Draft} → (∀ e ∈ entries, draft.Lacks e.1) → {fuel depth : Nat} → {ls : List Lexeme} →
    LexedFields entries ls → fieldsDepth entries ≤ depth + 1 →
    (∀ n ∈ fieldNumerals entries, n.fitsDouble = true) → ls.length + 1 ≤ fuel → (rest : List Lexeme) →
    readDocumentFields depth fuel draft (ls ++ .closeObject :: rest)
      = .ok (entries.foldl (Draft.take d) draft, rest) := by
  induction entries with
  | nil =>
    intro _ _ draft _ fuel depth ls hls _ _ hfuel rest
    obtain rfl := hls
    cases fuel with
    | zero => exact absurd hfuel (Nat.not_succ_le_zero _)
    | succ fuel => rfl
  | cons e entries ih =>
    intro hfields honce draft hdraft fuel depth ls hls hdepth hfits hfuel rest
    obtain ⟨front, more, hfront, hmore, rfl⟩ := hls
    have hmax := Nat.max_le.mp hdepth
    have hnumerals := List.forall_mem_append.mp hfits
    obtain ⟨hfirst, honce⟩ := List.pairwise_cons.mp honce
    simp only [List.length_cons, List.length_append] at hfuel
    cases fuel with
    | zero => exact absurd hfuel (Nat.not_succ_le_zero _)
    | succ fuel =>
      have hone := readDocumentField_ok (hfields e List.mem_cons_self) (hdraft e List.mem_cons_self) hfront
        hmax.1 hnumerals.1 (by omega : front.length ≤ fuel) (more ++ .closeObject :: rest)
      -- A known field is new to the draft each time, since none is given twice.
      have hlacks : ∀ e' ∈ entries, (draft.take d e).Lacks e'.1 := fun e' he' =>
        (hdraft e' (List.mem_cons_of_mem e he')).take fun hknown heq =>
          hfirst e' he' (heq ▸ hknown) heq
      have hmany := ih (fun e' he' => hfields e' (List.mem_cons_of_mem e he')) honce hlacks hmore hmax.2
        hnumerals.2 (by omega : more.length + 1 ≤ fuel) rest
      rw [List.cons_append, List.append_assoc]
      show (readDocumentField fuel depth draft (front ++ (more ++ .closeObject :: rest)) >>= fun r =>
        readDocumentFields depth fuel r.1 r.2) = _
      rw [hone]
      exact hmany

/-! ## Documents -/

/-- The slots of a document. -/
abbrev documentSlots (d : Document) : List Slot :=
  [.required "file" (.text d.file), .defaulted "items" (d.items.map fun item => .node item.slots)]

theorem Filled.document {d : Document} {fields : List (String × Json)}
    (h : Filled (documentSlots d) fields) :
    (∀ e ∈ fields, FieldOf d e) ∧ "file" ∈ fields.map Prod.fst ∧
      ("items" ∉ fields.map Prod.fst → d.items = []) := by
  cases h with
  | missing hmissing _ => contradiction
  | @given _ _ _ file hfile hrest =>
    have hne : "file" ≠ "items" := by decide
    have hfileField : FieldOf d ("file", file) := ⟨fun _ => hfile, fun heq => absurd heq hne⟩
    cases hrest with
    | @given _ _ _ items hitems hnone =>
      cases hnone
      have hitemsField : FieldOf d ("items", items) := ⟨fun heq => absurd heq.symm hne, fun _ => hitems⟩
      refine ⟨fun e he => ?_, List.mem_cons_self, fun hnot => absurd ?_ hnot⟩
      · rcases List.mem_cons.mp he with rfl | he
        · exact hfileField
        · obtain rfl := List.mem_singleton.mp he
          exact hitemsField
      · exact List.mem_cons_of_mem _ List.mem_cons_self
    | missing hmissing hnone =>
      cases hnone
      refine ⟨fun e he => ?_, List.mem_cons_self, fun _ => ?_⟩
      · obtain rfl := List.mem_singleton.mp he
        exact hfileField
      · simpa [Slot.defaulted] using hmissing

theorem Draft.finish_ok {d : Document} {draft : Draft} (hfile : draft.file = some d.file)
    (hitems : draft.items.getD [] = d.items) : draft.finish = .ok d := by
  rw [Draft.finish, hfile]
  show Except.ok (Document.mk d.file (draft.items.getD [])) = _
  rw [hitems]

theorem Holds.document {d : Document} {entries : List (String × Json)}
    (h : Holds (documentSlots d) entries) :
    (∀ e ∈ entries, FieldOf d e) ∧ (entries.foldl (Draft.take d) {}).finish = .ok d := by
  obtain ⟨fields, others, hfilled, hothers, hperm⟩ := h
  obtain ⟨hfields, hfile, hitems⟩ := hfilled.document
  have hnames : ∀ name ∈ fields.map Prod.fst, name ∈ entries.map Prod.fst :=
    fun name hname => (hperm.map Prod.fst).symm.subset (by
      rw [List.map_append]
      exact List.mem_append_left _ hname)
  constructor
  · intro e he
    rcases List.mem_append.mp (hperm.subset he) with he | he
    · exact hfields e he
    · have hnot := hothers e he
      exact ⟨fun heq => absurd (heq ▸ .head _) hnot, fun heq => absurd (heq ▸ .tail _ (.head _)) hnot⟩
  · refine Draft.finish_ok ?_ ?_
    · rw [Draft.foldl_take (Draft.take_file d), if_pos (hnames _ hfile)]
    · rw [Draft.foldl_take (Draft.take_items d)]
      split
      · rfl
      -- The items may be missing only if there are none.
      · next hnot => exact (hitems fun hmem => hnot (hnames _ hmem)).symm

theorem readDocument_object {d : Document} {entries : List (String × Json)}
    (h : Holds (documentSlots d) entries) {fuel : Nat} {ls : List Lexeme}
    (hls : (Json.object entries).Lexed ls) (hdepth : fieldsDepth entries ≤ maxDepth - 2 + 1)
    (hfits : ∀ n ∈ fieldNumerals entries, n.fitsDouble = true) (hfuel : ls.length ≤ fuel)
    (rest : List Lexeme) : readDocument fuel (ls ++ rest) = .ok (d, rest) := by
  obtain ⟨hof, hfinish⟩ := h.document
  -- the two fields that a document knows are there once, the others as often as they like
  have honce : entries.Pairwise fun a b => a.1 ∈ ["file", "items"] → a.1 ≠ b.1 :=
    h.once (show ["file", "items"].Nodup by decide)
  cases entries with
  | nil => contradiction
  | cons e entries =>
    obtain ⟨front, more, hfront, hmore, rfl⟩ := hls
    have hmax := Nat.max_le.mp hdepth
    have hnumerals := List.forall_mem_append.mp hfits
    obtain ⟨hfirst, honce⟩ := List.pairwise_cons.mp honce
    simp only [List.length_cons, List.length_append, List.length_nil] at hfuel
    have hempty : ∀ name, Draft.Lacks {} name := fun _ => ⟨fun _ => rfl, fun _ => rfl⟩
    have hone := readDocumentField_ok (hof e List.mem_cons_self) (hempty e.1) hfront hmax.1 hnumerals.1
      (by omega : front.length ≤ fuel) (more ++ .closeObject :: rest)
    have hlacks : ∀ e' ∈ entries, (Draft.take d {} e).Lacks e'.1 := fun e' he' =>
      (hempty e'.1).take fun hknown heq => hfirst e' he' (heq ▸ hknown) heq
    have hmany := readDocumentFields_ok (fun e' he' => hof e' (List.mem_cons_of_mem e he')) honce hlacks
      hmore hmax.2 hnumerals.2 (by omega : more.length + 1 ≤ fuel) rest
    simp only [List.cons_append, List.append_assoc, List.nil_append]
    rw [readDocument, hone]
    · show (readDocumentFields (maxDepth - 2) fuel (Draft.take d {} e) (more ++ .closeObject :: rest)
        >>= fun r => r.1.finish >>= fun d => pure (d, r.2)) = _
      rw [hmany]
      show ((entries.foldl (Draft.take d) (Draft.take d {} e)).finish >>= fun d => pure (d, rest)) = _
      rw [show (entries.foldl (Draft.take d) (Draft.take d {} e)).finish = .ok d from hfinish]
      rfl
    · -- the object is not empty: behind its brace comes a key
      intro ls heq
      obtain ⟨_, _, ⟨_, _, rfl⟩, _, rfl⟩ := hfront
      injection heq
      contradiction

theorem readDocumentArray_file {file : String} {l : Lexeme} (hl : LexedString file l) (fuel depth : Nat)
    (rest : List Lexeme) :
    readDocumentArray fuel depth (l :: .closeArray :: rest) = .ok (⟨file, []⟩, rest) := by
  have hfile := readText_ok hl (.closeArray :: rest)
  obtain ⟨parts, _, rfl⟩ := hl
  rw [readDocumentArray, hfile]
  · rfl
  · intro ls heq
    injection heq
    contradiction

theorem readDocumentArray_items {file : String} {l : Lexeme} (hl : LexedString file l) {fuel depth : Nat}
    {items : List Item} {ls rest : List Lexeme}
    (hitems : readItems fuel depth ls = .ok (items, .closeArray :: rest)) :
    readDocumentArray fuel depth (l :: .comma :: ls) = .ok (⟨file, items⟩, rest) := by
  have hfile := readText_ok hl (.comma :: ls)
  obtain ⟨parts, _, rfl⟩ := hl
  rw [readDocumentArray, hfile]
  · show (readItems fuel depth ls >>= _) = _
    rw [hitems]
    rfl
  · intro ls heq
    injection heq
    contradiction

theorem readDocument_array {d : Document} {values : List Json} (hlength : values.length ≤ 2)
    (h : Filled (documentSlots d) (["file", "items"].zip values)) {fuel : Nat} {ls : List Lexeme}
    (hls : (Json.array values).Lexed ls) (hdepth : elementsDepth values ≤ maxDepth - 2 + 1)
    (hfits : ∀ n ∈ elementNumerals values, n.fitsDouble = true) (hfuel : ls.length ≤ fuel)
    (rest : List Lexeme) : readDocument fuel (ls ++ rest) = .ok (d, rest) := by
  obtain ⟨hfields, hfile, hitems⟩ := h.document
  cases values with
  | nil => contradiction
  -- An array has a file, and at most a list of items behind it.
  | cons file values =>
    obtain ⟨_, more, hfront, hmore, rfl⟩ := hls
    obtain rfl := (hfields ("file", file) List.mem_cons_self).1 rfl
    obtain ⟨l, hl, rfl⟩ := hfront
    have hmax := Nat.max_le.mp hdepth
    have hnumerals := List.forall_mem_append.mp hfits
    simp only [List.length_cons, List.length_append, List.length_nil] at hfuel
    simp only [List.cons_append, List.append_assoc, List.nil_append]
    show readDocumentArray fuel (maxDepth - 2) _ = _
    cases values with
    | nil =>
      obtain rfl := hmore
      have hnone : d.items = [] := hitems (show "items" ∉ ["file"] by decide)
      rw [List.nil_append, readDocumentArray_file hl, ← hnone]
    | cons items values =>
      obtain ⟨front, _, hfront, hmore, rfl⟩ := hmore
      obtain rfl : values = [] := List.length_eq_zero_iff.mp (by simpa using hlength)
      obtain rfl := hmore
      have hmax := Nat.max_le.mp hmax.2
      have hnumerals := List.forall_mem_append.mp hnumerals.2
      simp only [List.length_cons, List.length_append, List.length_nil] at hfuel
      have hlist := (hfields ("items", items) (List.mem_cons_of_mem _ List.mem_cons_self)).2 rfl
      have hread := readItems_ok hlist hfront hmax.1 hnumerals.1 (by omega : front.length ≤ fuel)
        (.closeArray :: rest)
      rw [List.cons_append, List.append_assoc, List.nil_append, readDocumentArray_items hl hread]

/-- A document is read back from the lexemes of its encodings. -/
theorem readDocument_ok {d : Document} {v : Json} (h : d.Encodes v) {fuel : Nat} {ls : List Lexeme}
    (hls : v.Lexed ls) (hdepth : v.depth ≤ maxDepth) (hfits : ∀ n ∈ v.numerals, n.fitsDouble = true)
    (hfuel : ls.length ≤ fuel) (rest : List Lexeme) : readDocument fuel (ls ++ rest) = .ok (d, rest) := by
  rcases h with ⟨fields, others, entries, hfilled, hothers, hperm, rfl⟩ | h
  · exact readDocument_object ⟨fields, others, hfilled, hothers, hperm⟩ hls
      (Nat.le_of_succ_le_succ hdepth) hfits hfuel rest
  · obtain ⟨values, rfl, hlength, hfilled⟩ := h.values
    exact readDocument_array hlength hfilled hls (Nat.le_of_succ_le_succ hdepth) hfits hfuel rest

/-- A document is read back from every text that spells one of its encodings. -/
theorem read_ok {d : Document} {v : Json} {text : String} (h : d.Encodes v) (htext : Spells text v)
    (hdepth : v.depth ≤ maxDepth) (hfits : ∀ n ∈ v.numerals, n.fitsDouble = true) :
    Document.read text = .ok d := by
  have hread := readDocument_ok h htext.lexed hdepth hfits
    (Nat.le_succ (lexemes text).length) []
  rw [List.append_nil] at hread
  rw [Document.read, hread]
  rfl

end Semant.Document
