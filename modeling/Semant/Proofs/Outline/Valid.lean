import Semant.Proofs.Nodes
import Semant.Proofs.Outline.Basic

/-!
# What holds of every outline

An outline is built one event at a time, and this file says which steps the check can take
(`Outline.Permits`) and what such steps preserve. Two things are preserved.

`Outline.Scoped` is about names. Of all declarations that can be seen, exactly the oldest of each
name stand for themselves; the others were refused. The clause survives the end of a scope because
an outline lists outer scopes first: what is left after an inner scope was closed is a first part
of the list, and the oldest of a first part is the oldest of the whole.

`Outline.Signed` is about functions. Each has its signature, except the one whose parameters are
being read, and that one cannot be called yet.
-/

set_option autoImplicit false

namespace Semant

/-! ## Looking names up -/

theorem lookup_append (first rest : List Entry) (name : String) :
    lookup (first ++ rest) name = (lookup first name).or (lookup rest name) := by
  simp [lookup, List.find?_append]

theorem lookup_name {entries : List Entry} {name : String} {entry : Entry}
    (h : lookup entries name = some entry) : entry.definition.name = name := by
  simpa using List.find?_some h

theorem lookup_mem {entries : List Entry} {name : String} {entry : Entry}
    (h : lookup entries name = some entry) : entry ∈ entries :=
  List.mem_of_find?_eq_some h

theorem lookup_isSome_of_mem {entries : List Entry} {entry : Entry} (h : entry ∈ entries) :
    ∃ old, lookup entries entry.definition.name = some old := by
  cases hl : lookup entries entry.definition.name with
  | some old => exact ⟨old, rfl⟩
  | none =>
    have hnone := List.find?_eq_none.mp hl entry h
    exact absurd hnone (by simp)

theorem resolution_ok {entries : List Entry} {name : Identifier} {use : Use} {entry : Entry} :
    resolution entries name use = .ok entry
      ↔ lookup entries name.name = some entry ∧ entry.definition.cls = use.expects := by
  unfold resolution
  cases hl : lookup entries name.name with
  | none => simp
  | some old =>
    dsimp only
    split
    · rename_i hc
      constructor
      · intro h
        cases h
        exact ⟨rfl, hc⟩
      · rintro ⟨h, -⟩
        cases h
        rfl
    · rename_i hc
      constructor
      · intro h
        cases h
      · rintro ⟨h, hc'⟩
        cases h
        exact absurd hc' hc

theorem mem_visible {frames : List Frame} {entry : Entry} :
    entry ∈ visible frames ↔ ∃ frame ∈ frames, entry ∈ frame.entries := by
  induction frames with
  | nil => simp [visible]
  | cons frame outer ih => simp [visible, ih, or_comm]

theorem getElem?_snoc {α : Type} {xs : List α} {x y : α} {i : Nat} :
    (xs ++ [x])[i]? = some y ↔ xs[i]? = some y ∨ (i = xs.length ∧ x = y) := by
  rw [List.getElem?_append]
  split
  · rename_i hlt
    simp [Nat.ne_of_lt hlt]
  · rename_i hge
    rw [List.getElem?_eq_none (Nat.le_of_not_lt hge), List.getElem?_singleton]
    have hiff : i - xs.length = 0 ↔ i = xs.length := by omega
    by_cases hi : i = xs.length <;> simp [hiff, hi]

namespace Outline

/-! ## Steps that can be taken -/

/-- No scope was opened by the node yet. -/
def Unopened (o : Outline) (node : NodeId) : Prop := ∀ around, (node, around) ∉ o.regions

theorem unopened_of_nil {o : Outline} (h : o.regions = []) {node : NodeId} : o.Unopened node := by
  simp [Unopened, h]

/-- A declaration can be read: there is a scope for it, its node is new and its type is named. -/
def CanDeclare (o : Outline) (d : Definition) : Prop :=
  o.frames ≠ [] ∧ o.symbols.get d.id = none ∧ o.signatures.get d.id = none ∧
    d.typeName.type?.isSome

/-- A use of a name can be read. -/
def CanRefer (o : Outline) (node : NodeId) : Prop :=
  o.frames ≠ [] ∧ o.symbols.get node = none

/-- A type can be given to an expression. -/
def CanSettle (o : Outline) (e : Expr) : Prop :=
  o.types.get e.id = none ∧ e.isLiteral = false

/-- The type of an expression will not change any more. -/
def Settled (o : Outline) (e : Expr) : Prop :=
  e.isLiteral = true ∨ (o.types.get e.id).isSome

/-- The event comes where the check expects it. -/
def Permits (o : Outline) : Event → Prop
  | .enterProgram _ => o.regions = [] ∧ o.frames = []
  | .enterBlock b => o.frames ≠ [] ∧ o.Unopened b.id
  | .exitProgram _ | .exitBlock _ => o.frames ≠ []
  | .enterStart _ => o.header = none
  | .enterDecl d => o.CanDeclare (.data d)
  | .enterFunction f => o.CanDeclare (.function f) ∧ o.Unopened f.id ∧ o.header = none
  | .exitFunction _ => o.frames ≠ [] ∧ o.header = none
  | .enterParam _ d => o.CanDeclare (.data d) ∧ o.header.isSome
  | .exitParams f =>
    o.function = some f ∧ o.header = some f.signature ∧ o.signatures.get f.id = none
  | .enterAssign a => o.CanRefer a.id
  | .enterVariable e _ | .enterCall e _ _ => o.CanRefer e.nameNode
  | .exitAssign a => (o.symbols.get a.id).isSome ∧ o.Settled a.value
  | .exitData d => d.decl.type.type?.isSome ∧ ∀ init, d.init = some init → o.Settled init
  | .exitReturn _ value =>
    (∀ f, o.function = some f → f.returns.type?.isSome) ∧ ∀ e, value = some e → o.Settled e
  | .exitVariable e _ => o.CanSettle e ∧ (o.symbols.get e.nameNode).isSome
  | .exitCall e _ args =>
    o.CanSettle e ∧ (o.symbols.get e.nameNode).isSome ∧ (∀ arg ∈ args, o.Settled arg) ∧ o.header = none ∧
      ∀ entry, o.symbolOf e.nameNode = some entry → entry.definition.cls = .function
  | .exitBinary e _ _ lhs rhs => o.CanSettle e ∧ o.Settled lhs ∧ o.Settled rhs
  | .exitUnary e _ _ operand => o.CanSettle e ∧ o.Settled operand
  | .exitCast e target operand => o.CanSettle e ∧ o.Settled operand ∧ target.type?.isSome
  | .exitGrouped e inner => o.CanSettle e ∧ o.Settled inner
  | .exitFormat e _ _ => o.CanSettle e
  | .exitLiteral e _ => e.isLiteral = true
  | _ => True

/-- Every event comes where the check expects it. -/
def Orderly (o : Outline) : List Event → Prop
  | [] => True
  | event :: rest => o.Permits event ∧ (o.step event).Orderly rest

@[simp]
theorem orderly_append (o : Outline) (first rest : List Event) :
    o.Orderly (first ++ rest) ↔ o.Orderly first ∧ (o.run first).Orderly rest := by
  induction first generalizing o with
  | nil => simp [Orderly]
  | cons event first ih => simp [Orderly, ih, and_assoc]

/-! ## Names -/

/-- Each open scope lies directly inside the next. -/
def Linked (regions : List (NodeId × Option NodeId)) : List Frame → Prop
  | [] => True
  | frame :: outer =>
    (frame.node, outer.head?.map Frame.node) ∈ regions ∧ Linked regions outer

theorem Linked.mono {regions more : List (NodeId × Option NodeId)} (hsub : regions ⊆ more) :
    ∀ {frames : List Frame}, Linked regions frames → Linked more frames
  | [], _ => trivial
  | _ :: _, h => ⟨hsub h.1, Linked.mono hsub h.2⟩

theorem Linked.node_mem {regions : List (NodeId × Option NodeId)} :
    ∀ {frames : List Frame}, Linked regions frames →
      ∀ frame ∈ frames, ∃ around, (frame.node, around) ∈ regions
  | _ :: _, h, frame, hm => by
    rcases List.mem_cons.mp hm with rfl | hm
    · exact ⟨_, h.1⟩
    · exact Linked.node_mem h.2 frame hm

/-- Declarations and scopes fit together, and of the declarations that can be seen exactly the
oldest of each name stand for themselves. -/
structure Scoped (o : Outline) : Prop where
  linked : Linked o.regions o.frames
  /-- The scope around a scope was opened too. -/
  around : ∀ {node outer : NodeId}, (node, some outer) ∈ o.regions →
    ∃ next, (outer, next) ∈ o.regions
  distinct : (o.frames.map Frame.node).Nodup
  entries : ∀ frame ∈ o.frames, ∀ entry : Entry,
    entry ∈ frame.entries ↔ o.declared[entry.place]? = some (frame.node, entry.definition)
  home : ∀ {node : NodeId} {d : Definition}, (node, d) ∈ o.declared →
    ∃ around, (node, around) ∈ o.regions
  /-- The oldest of its name was bound, -/
  bound : ∀ {name : String} {entry : Entry}, lookup o.scope name = some entry →
    o.symbolOf entry.definition.id = some entry
  /-- and no other was. -/
  oldest : ∀ {entry : Entry}, entry ∈ o.scope → o.symbolOf entry.definition.id = some entry →
    lookup o.scope entry.definition.name = some entry
  /-- A declaration stands for itself or for nothing. -/
  own : ∀ {place : SymbolRef} {node : NodeId} {d : Definition},
    o.declared[place]? = some (node, d) →
      o.symbols.get d.id = some (some ⟨place, d⟩) ∨ o.symbols.get d.id = some none
  /-- What a node stands for is a declaration that stands for itself. -/
  slot : ∀ {n : NodeId} {entry : Entry}, o.symbolOf n = some entry →
    (∃ node, o.declared[entry.place]? = some (node, entry.definition)) ∧
      o.symbolOf entry.definition.id = some entry

theorem Scoped.start (literals : Cells Ty) : (Outline.start literals).Scoped where
  linked := trivial
  around := by simp [Outline.start]
  distinct := List.nodup_nil
  entries := by simp [Outline.start]
  home := by simp [Outline.start]
  bound := by simp [Outline.start, scope, visible, lookup]
  oldest := by simp [Outline.start, scope, visible]
  own := by simp [Outline.start]
  slot := by simp [Outline.start, symbolOf]

/-- What is said about names depends on scopes, declarations and what nodes stand for, not on types
and signatures. -/
theorem Scoped.same {o o' : Outline} (h : o.Scoped) (hf : o'.frames = o.frames)
    (hr : o'.regions = o.regions) (hd : o'.declared = o.declared) (hs : o'.symbols = o.symbols) :
    o'.Scoped := by
  cases o
  cases o'
  cases hf
  cases hr
  cases hd
  cases hs
  exact ⟨h.linked, h.around, h.distinct, h.entries, h.home, h.bound, h.oldest, h.own, h.slot⟩

theorem Scoped.visible_declared {o : Outline} (h : o.Scoped) {entry : Entry}
    (hm : entry ∈ o.scope) : ∃ node, o.declared[entry.place]? = some (node, entry.definition) := by
  obtain ⟨frame, hf, he⟩ := mem_visible.mp hm
  exact ⟨frame.node, (h.entries frame hf entry).mp he⟩

theorem Scoped.symbolOf_own {o : Outline} (h : o.Scoped) {place : SymbolRef} {node : NodeId}
    {d : Definition} (hd : o.declared[place]? = some (node, d)) :
    o.symbolOf d.id = some ⟨place, d⟩ ∨ o.symbolOf d.id = none := by
  rcases h.own hd with hs | hs <;> simp [symbolOf, hs]

theorem Scoped.own_of_place {o : Outline} (h : o.Scoped) {place ref : SymbolRef} {node : NodeId}
    {d : Definition} (hd : o.declared[place]? = some (node, d))
    (hslot : (o.symbolOf d.id).map Entry.place = some ref) :
    place = ref ∧ o.symbolOf d.id = some ⟨place, d⟩ := by
  rcases h.symbolOf_own hd with hs | hs
  · rw [hs] at hslot
    exact ⟨Option.some.inj hslot, hs⟩
  · rw [hs] at hslot
    cases hslot

theorem Scoped.opened {o : Outline} (h : o.Scoped) {node : NodeId} (hn : o.Unopened node) :
    (o.opened node).Scoped where
  linked := ⟨by simp [Outline.opened], h.linked.mono (by simp [Outline.opened])⟩
  around := by
    intro x outer hm
    have hout : ∃ next, (outer, next) ∈ o.regions := by
      rcases List.mem_append.mp hm with hm | hm
      · exact h.around hm
      · simp only [List.mem_singleton, Prod.mk.injEq] at hm
        obtain ⟨frame, hf, rfl⟩ := Option.map_eq_some_iff.mp hm.2.symm
        exact h.linked.node_mem frame (List.mem_of_mem_head? hf)
    obtain ⟨next, hn⟩ := hout
    exact ⟨next, List.mem_append_left _ hn⟩
  distinct := by
    refine List.nodup_cons.mpr ⟨fun hm => ?_, h.distinct⟩
    obtain ⟨frame, hf, rfl⟩ := List.mem_map.mp hm
    obtain ⟨around, ha⟩ := h.linked.node_mem frame hf
    exact hn around ha
  entries := by
    intro frame hf entry
    rcases List.mem_cons.mp hf with rfl | hf
    · constructor
      · intro he
        exact absurd he (by simp)
      · intro hd
        -- nothing is declared in a region that was not opened before
        obtain ⟨around, ha⟩ := h.home (List.mem_of_getElem? hd)
        exact absurd ha (hn around)
    · exact h.entries frame hf entry
  home := by
    intro x d hd
    obtain ⟨around, ha⟩ := h.home hd
    exact ⟨around, by simp [Outline.opened, ha]⟩
  bound := by
    intro name entry hl
    have hl' : lookup o.scope name = some entry := by
      simpa [scope, Outline.opened, visible] using hl
    exact h.bound hl'
  oldest := by
    intro entry hm hs
    have hs' : o.symbolOf entry.definition.id = some entry := hs
    have hm' : entry ∈ o.scope := by simpa [scope, Outline.opened, visible] using hm
    simpa [scope, Outline.opened, visible] using h.oldest hm' hs'
  own := h.own
  slot := h.slot

theorem Scoped.closed {o : Outline} (h : o.Scoped) : o.closed.Scoped := by
  cases hf : o.frames with
  | nil =>
    have he : o.closed = o := by
      cases o
      cases hf
      rfl
    rw [he]
    exact h
  | cons frame outer =>
    have hscope : o.scope = visible outer ++ frame.entries := by simp [scope, hf, visible]
    have hclosed : o.closed.scope = visible outer := by simp [scope, Outline.closed, hf]
    have hl := h.linked
    have hd := h.distinct
    rw [hf] at hl hd
    refine ⟨?_, h.around, ?_, ?_, h.home, ?_, ?_, h.own, h.slot⟩
    · simpa [Outline.closed, hf] using hl.2
    · simpa [Outline.closed, hf] using (List.nodup_cons.mp hd).2
    · intro fr hfr entry
      refine h.entries fr ?_ entry
      rw [hf]
      exact List.mem_cons_of_mem _ (by simpa [Outline.closed, hf] using hfr)
    · intro name entry hlk
      rw [hclosed] at hlk
      have hlk' : lookup o.scope name = some entry := by
        rw [hscope, lookup_append, hlk]
        rfl
      exact h.bound hlk'
    · intro entry hm hs
      rw [hclosed] at hm ⊢
      have hs' : o.symbolOf entry.definition.id = some entry := hs
      -- The oldest of the whole list lies in the first part, since some declaration of the name does.
      have hall := h.oldest (by rw [hscope]; exact List.mem_append_left _ hm) hs'
      obtain ⟨old, hold⟩ := lookup_isSome_of_mem hm
      rw [hscope, lookup_append, hold] at hall
      rw [hold]
      exact hall

theorem write_eq {o : Outline} {frame : Frame} {outer : List Frame} (d : Definition)
    (stands : Option Entry) (h : o.frames = frame :: outer) :
    o.write d stands =
      { o with
        frames := { frame with entries := frame.entries ++ [o.entryOf d] } :: outer
        declared := o.declared ++ [(frame.node, d)]
        symbols := o.symbols.put d.id stands } := by
  simp [Outline.write, h]

/-- A declaration changes the open scopes, the declarations and what its node stands for. -/
theorem declare_frame (o : Outline) (d : Definition) :
    (o.declare d).regions = o.regions ∧ (o.declare d).signatures = o.signatures ∧
      (o.declare d).header = o.header ∧ (o.declare d).function = o.function := by
  unfold Outline.declare Outline.write
  cases o.frames <;> exact ⟨rfl, rfl, rfl, rfl⟩

theorem nodes_declare (o : Outline) (d : Definition) :
    (o.declare d).frames.map Frame.node = o.frames.map Frame.node := by
  unfold Outline.declare Outline.write
  cases h : o.frames with
  | nil => simp [h]
  | cons frame outer => rfl

theorem scope_declare {o : Outline} (d : Definition) (hf : o.frames ≠ []) :
    (o.declare d).scope = o.scope ++ [o.entryOf d] := by
  cases h : o.frames with
  | nil => exact absurd h hf
  | cons frame outer => simp [scope, Outline.declare, write_eq _ _ h, h, visible]

theorem symbols_declare {o : Outline} (d : Definition) (hf : o.frames ≠ []) :
    (o.declare d).symbols = o.symbols.put d.id
      (if (lookup o.scope d.name).isSome then none else some (o.entryOf d)) := by
  cases h : o.frames with
  | nil => exact absurd h hf
  | cons frame outer => simp [Outline.declare, write_eq _ _ h]

/-- A declaration leaves alone what other nodes stand for. -/
theorem symbolOf_declare_of_ne {o : Outline} {d : Definition} {n : NodeId} (hf : o.frames ≠ [])
    (hn : d.id ≠ n) : (o.declare d).symbolOf n = o.symbolOf n := by
  simp [symbolOf, symbols_declare d hf, Cells.get_put, hn]

theorem symbolOf_declare_self {o : Outline} {d : Definition} (hf : o.frames ≠ []) :
    (o.declare d).symbolOf d.id
      = if (lookup o.scope d.name).isSome then none else some (o.entryOf d) := by
  simp [symbolOf, symbols_declare d hf, Cells.get_put]

theorem Scoped.ne_of_symbolOf {o : Outline} {n m : NodeId} {entry : Entry}
    (hn : o.symbols.get n = none) (hm : o.symbolOf m = some entry) : n ≠ m := by
  rintro rfl
  rw [symbolOf, hn] at hm
  cases hm

theorem Scoped.ne_of_declared {o : Outline} (h : o.Scoped) {n : NodeId} {place : SymbolRef}
    {node : NodeId} {d : Definition} (hn : o.symbols.get n = none)
    (hd : o.declared[place]? = some (node, d)) : n ≠ d.id := by
  rintro rfl
  rcases h.own hd with hs | hs <;> rw [hn] at hs <;> cases hs

theorem frames_declare {o : Outline} {frame : Frame} {outer : List Frame} (d : Definition)
    (h : o.frames = frame :: outer) :
    (o.declare d).frames = { frame with entries := frame.entries ++ [o.entryOf d] } :: outer := by
  simp [Outline.declare, write_eq _ _ h]

/-- The new declaration is made in the innermost scope, and the last one of all. -/
theorem getElem?_declared_declare {o : Outline} {frame : Frame} {outer : List Frame}
    {d d' : Definition} {place : SymbolRef} {node : NodeId} (h : o.frames = frame :: outer) :
    (o.declare d).declared[place]? = some (node, d') ↔
      o.declared[place]? = some (node, d') ∨
        (place = o.declared.length ∧ node = frame.node ∧ d' = d) := by
  have hdeclared : (o.declare d).declared = o.declared ++ [(frame.node, d)] := by
    simp [Outline.declare, write_eq _ _ h]
  rw [hdeclared, getElem?_snoc, Prod.mk.injEq, @eq_comm _ frame.node, @eq_comm _ d]

theorem Scoped.entries_declare {o : Outline} (h : o.Scoped) (d : Definition) {frame : Frame}
    {outer : List Frame} (hfr : o.frames = frame :: outer) :
    ∀ fr ∈ (o.declare d).frames, ∀ entry : Entry, entry ∈ fr.entries ↔
      (o.declare d).declared[entry.place]? = some (fr.node, entry.definition) := by
  intro fr hm entry
  rw [frames_declare d hfr] at hm
  rw [getElem?_declared_declare hfr]
  rcases List.mem_cons.mp hm with rfl | hm
  · have hold := h.entries frame (by rw [hfr]; exact List.mem_cons_self) entry
    rw [List.mem_append, List.mem_singleton, hold]
    refine or_congr Iff.rfl ⟨?_, ?_⟩
    · rintro rfl
      exact ⟨rfl, rfl, rfl⟩
    · rintro ⟨hp, -, he⟩
      cases entry
      cases hp
      cases he
      rfl
  · -- An outer scope: the new declaration has another home.
    have hold := h.entries fr (by rw [hfr]; exact List.mem_cons_of_mem _ hm) entry
    have hdistinct := h.distinct
    rw [hfr] at hdistinct
    have hne : fr.node ≠ frame.node := by
      intro he
      exact (List.nodup_cons.mp hdistinct).1 (he ▸ List.mem_map_of_mem hm)
    simp [hold, hne]

/-- What was the oldest of its name still is; a new name is bound by the new declaration. -/
theorem Scoped.bound_declare {o : Outline} (h : o.Scoped) {d : Definition} (hd : o.CanDeclare d)
    {name : String} {entry : Entry} (hl : lookup (o.declare d).scope name = some entry) :
    (o.declare d).symbolOf entry.definition.id = some entry := by
  rw [scope_declare d hd.1, lookup_append] at hl
  cases hold : lookup o.scope name with
  | some old =>
    rw [hold] at hl
    cases hl
    have hb := h.bound hold
    rw [symbolOf_declare_of_ne hd.1 (ne_of_symbolOf hd.2.1 hb)]
    exact hb
  | none =>
    rw [hold] at hl
    have he : entry = o.entryOf d := by simpa using lookup_mem hl
    have hname := lookup_name hl
    subst he
    have hfree : lookup o.scope d.name = none := by
      rw [show d.name = name from hname, hold]
    exact (symbolOf_declare_self hd.1).trans (by simp [hfree])

theorem Scoped.oldest_declare {o : Outline} (h : o.Scoped) {d : Definition} (hd : o.CanDeclare d)
    {entry : Entry} (hm : entry ∈ (o.declare d).scope)
    (hs : (o.declare d).symbolOf entry.definition.id = some entry) :
    lookup (o.declare d).scope entry.definition.name = some entry := by
  rw [scope_declare d hd.1] at hm ⊢
  rw [lookup_append]
  rcases List.mem_append.mp hm with hm | hm
  · obtain ⟨node, hdecl⟩ := h.visible_declared hm
    rw [symbolOf_declare_of_ne hd.1 (h.ne_of_declared hd.2.1 hdecl)] at hs
    rw [h.oldest hm hs]
    rfl
  · cases List.mem_singleton.mp hm
    have hself := (symbolOf_declare_self hd.1).symm.trans hs
    cases hfree : lookup o.scope d.name with
    | some old => simp [hfree] at hself
    | none =>
      rw [show (o.entryOf d).definition.name = d.name from rfl, hfree]
      simp [lookup, entryOf]

theorem Scoped.slot_declare {o : Outline} (h : o.Scoped) {d : Definition} (hd : o.CanDeclare d)
    {frame : Frame} {outer : List Frame} (hfr : o.frames = frame :: outer) {n : NodeId}
    {entry : Entry} (hs : (o.declare d).symbolOf n = some entry) :
    (∃ node, (o.declare d).declared[entry.place]? = some (node, entry.definition)) ∧
      (o.declare d).symbolOf entry.definition.id = some entry := by
  simp only [getElem?_declared_declare hfr]
  by_cases hn : d.id = n
  · subst hn
    have he := (symbolOf_declare_self hd.1).symm.trans hs
    split at he
    · cases he
    · cases he
      exact ⟨⟨frame.node, Or.inr ⟨rfl, rfl, rfl⟩⟩, hs⟩
  · rw [symbolOf_declare_of_ne hd.1 hn] at hs
    obtain ⟨⟨node, hdecl⟩, hself⟩ := h.slot hs
    refine ⟨⟨node, Or.inl hdecl⟩, ?_⟩
    rw [symbolOf_declare_of_ne hd.1 (ne_of_symbolOf hd.2.1 hself)]
    exact hself

theorem Scoped.declare {o : Outline} (h : o.Scoped) {d : Definition} (hd : o.CanDeclare d) :
    (o.declare d).Scoped := by
  have hregions : (o.declare d).regions = o.regions := (declare_frame o d).1
  cases hfr : o.frames with
  | nil => exact absurd hfr hd.1
  | cons frame outer =>
    have hl := h.linked
    rw [hfr] at hl
    refine ⟨?_, ?_, ?_, h.entries_declare d hfr, ?_, h.bound_declare hd, h.oldest_declare hd, ?_,
      h.slot_declare hd hfr⟩
    · rw [frames_declare d hfr, hregions]
      exact hl
    · rw [hregions]
      exact h.around
    · rw [nodes_declare]
      exact h.distinct
    · intro node d' hm
      rw [hregions]
      obtain ⟨place, hp⟩ := List.mem_iff_getElem?.mp hm
      rcases (getElem?_declared_declare hfr).mp hp with hp | ⟨-, rfl, -⟩
      · exact h.home (List.mem_of_getElem? hp)
      · exact ⟨_, hl.1⟩
    · intro place node d' hm
      rw [symbols_declare d hd.1, Cells.get_put]
      rcases (getElem?_declared_declare hfr).mp hm with hm | ⟨rfl, rfl, rfl⟩
      · rw [if_neg (h.ne_of_declared hd.2.1 hm)]
        exact h.own hm
      · cases lookup o.scope d'.name <;> simp [entryOf]

theorem Scoped.refer {o : Outline} (h : o.Scoped) {node : NodeId} (hn : o.CanRefer node)
    (name : Identifier) (use : Use) : (o.refer node name use).Scoped := by
  obtain ⟨-, hnew⟩ := hn
  have hother : ∀ {n : NodeId}, node ≠ n → (o.refer node name use).symbolOf n = o.symbolOf n := by
    intro n hne
    simp [symbolOf, Outline.refer, Cells.get_put, hne]
  refine ⟨h.linked, h.around, h.distinct, h.entries, h.home, ?_, ?_, ?_, ?_⟩
  · intro n entry hl
    have hb := h.bound hl
    rw [hother (ne_of_symbolOf hnew hb)]
    exact hb
  · intro entry hm hs
    obtain ⟨x, hdecl⟩ := h.visible_declared hm
    rw [hother (h.ne_of_declared hnew hdecl)] at hs
    exact h.oldest hm hs
  · intro place x d hd
    have hne : node ≠ d.id := h.ne_of_declared hnew hd
    simpa [Outline.refer, Cells.get_put, hne] using h.own hd
  · intro n entry hs
    -- A use that resolves points at the oldest declaration, which stands for itself.
    have htarget : (∃ x, o.declared[entry.place]? = some (x, entry.definition)) ∧
        o.symbolOf entry.definition.id = some entry := by
      by_cases hne : node = n
      · subst hne
        cases hr : resolution o.scope name use with
        | error e => simp [symbolOf, Outline.refer, Cells.get_put, hr, Except.toOption] at hs
        | ok found =>
          have he : found = entry := by
            simpa [symbolOf, Outline.refer, Cells.get_put, hr, Except.toOption] using hs
          subst he
          exact h.slot (h.bound (resolution_ok.mp hr).1)
      · rw [hother hne] at hs
        exact h.slot hs
    refine ⟨htarget.1, ?_⟩
    rw [hother (ne_of_symbolOf hnew htarget.2)]
    exact htarget.2

/-! ## What a scope binds -/

/-- The scope of a node binds a name to the declaration with a number: it was made in that scope
under that name, and stands for itself. -/
def Binds (o : Outline) (node : NodeId) (name : String) (ref : SymbolRef) : Prop :=
  ∃ d : Definition, o.declared[ref]? = some (node, d) ∧ d.name = name ∧
    o.symbolOf d.id = some ⟨ref, d⟩

/-- What other declarations stand for does not change when one is written down. -/
theorem Scoped.symbolOf_write {o : Outline} (h : o.Scoped) {d : Definition} (hd : o.CanDeclare d)
    (stands : Option Entry) {place : SymbolRef} {node : NodeId} {d' : Definition}
    (hm : o.declared[place]? = some (node, d')) :
    (o.write d stands).symbolOf d'.id = o.symbolOf d'.id := by
  cases hf : o.frames with
  | nil => exact absurd hf hd.1
  | cons frame outer =>
    rw [write_eq d stands hf, symbolOf, Cells.get_put, if_neg (h.ne_of_declared hd.2.1 hm)]
    rfl

/-- Writing a declaration down binds what it stands for, and nothing else changes. -/
theorem Scoped.binds_write {o : Outline} (h : o.Scoped) {d : Definition} (hd : o.CanDeclare d)
    (bound : Bool) (node : NodeId) (name : String) (ref : SymbolRef) :
    (o.write d (if bound then some (o.entryOf d) else none)).Binds node name ref ↔
      o.Binds node name ref ∨ (bound = true ∧ ref = o.declared.length ∧
        o.frames.head?.map Frame.node = some node ∧ d.name = name) := by
  cases hf : o.frames with
  | nil => exact absurd hf hd.1
  | cons frame outer =>
    -- the cells of earlier declarations are not written, as the node of `d` is new
    have hother := fun (stands : Option Entry) {place : SymbolRef} {node : NodeId}
      {d' : Definition} (hm : o.declared[place]? = some (node, d')) =>
        h.symbolOf_write hd stands hm
    have hself : (o.write d (if bound then some (o.entryOf d) else none)).symbolOf d.id
        = if bound then some (o.entryOf d) else none := by
      simp [write_eq d _ hf, symbolOf, Cells.get_put]
    have hdeclared : ∀ stands, (o.write d stands).declared = o.declared ++ [(frame.node, d)] :=
      fun stands => by rw [write_eq d stands hf]
    simp only [Binds, hdeclared, getElem?_snoc]
    constructor
    · rintro ⟨d', hm | ⟨hp, he⟩, hn, hs⟩
      · rw [hother _ hm] at hs
        exact Or.inl ⟨d', hm, hn, hs⟩
      · cases he
        rw [hself] at hs
        cases bound with
        | false => cases hs
        | true => exact Or.inr ⟨rfl, hp, rfl, hn⟩
    · rintro (⟨d', hm, hn, hs⟩ | ⟨rfl, rfl, hnode, hn⟩)
      · exact ⟨d', Or.inl hm, hn, (hother _ hm).trans hs⟩
      · cases hnode
        exact ⟨d, Or.inr ⟨rfl, rfl⟩, hn, hself⟩

/-- A use of a name does not change what declarations stand for. -/
theorem Scoped.symbolOf_refer {o : Outline} (h : o.Scoped) {n : NodeId} (hn : o.CanRefer n)
    (name : Identifier) (use : Use) {place : SymbolRef} {node : NodeId} {d : Definition}
    (hm : o.declared[place]? = some (node, d)) :
    (o.refer n name use).symbolOf d.id = o.symbolOf d.id := by
  simp [symbolOf, Outline.refer, Cells.get_put, h.ne_of_declared hn.2 hm]

theorem Scoped.binds_refer {o : Outline} (h : o.Scoped) {n : NodeId} (hn : o.CanRefer n)
    (name : Identifier) (use : Use) {node : NodeId} {bound : String} {ref : SymbolRef} :
    (o.refer n name use).Binds node bound ref ↔ o.Binds node bound ref := by
  refine exists_congr fun d => and_congr_right fun hm => and_congr_right fun _ => ?_
  rw [h.symbolOf_refer hn name use hm]

/-- A name that is free is bound nowhere in the innermost scope. -/
theorem Scoped.not_binds {o : Outline} (h : o.Scoped) {name : String}
    (hfree : lookup o.scope name = none) {frame : Frame} (hm : frame ∈ o.frames)
    {ref : SymbolRef} : ¬ o.Binds frame.node name ref := by
  rintro ⟨d, hd, rfl, -⟩
  have hvis : (⟨ref, d⟩ : Entry) ∈ o.scope :=
    mem_visible.mpr ⟨frame, hm, (h.entries frame hm ⟨ref, d⟩).mpr hd⟩
  obtain ⟨old, hold⟩ := lookup_isSome_of_mem hvis
  rw [hfree] at hold
  cases hold

/-! ## Functions -/

/-- Every function has its signature, except one whose parameters are being read. -/
structure Signed (o : Outline) : Prop where
  signed : ∀ {node : NodeId} {f : Function}, (node, .function f) ∈ o.declared →
    o.signatures.get f.id = some f.signature ∨ (o.header.isSome ∧ o.function = some f)
  current : ∀ {f : Function}, o.function = some f → ∃ node, (node, .function f) ∈ o.declared

theorem Signed.start (literals : Cells Ty) : (Outline.start literals).Signed where
  signed := by simp [Outline.start]
  current := by simp [Outline.start]

theorem mem_declared_declare {o : Outline} {d : Definition} {x : NodeId × Definition}
    (hf : o.frames ≠ []) :
    x ∈ (o.declare d).declared ↔ x ∈ o.declared ∨ ∃ frame ∈ o.frames.head?, x = (frame.node, d) := by
  cases h : o.frames with
  | nil => exact absurd h hf
  | cons frame outer => simp [Outline.declare, write_eq _ _ h]

/-- A step that declares no function and opens or closes no signature. -/
theorem Signed.declareData {o : Outline} (h : o.Signed) {d : Decl} (hf : o.frames ≠ []) :
    (o.declare (.data d)).Signed := by
  have hmem : ∀ {x : NodeId} {f : Function}, (x, .function f) ∈ (o.declare (.data d)).declared ↔
      (x, .function f) ∈ o.declared := by
    intro x f
    rw [mem_declared_declare hf]
    simp
  obtain ⟨-, hs, hh, hfn⟩ := declare_frame o (.data d)
  constructor
  · intro x f hm
    rw [hs, hh, hfn]
    exact h.signed (hmem.mp hm)
  · intro f hfun
    rw [hfn] at hfun
    obtain ⟨x, hx⟩ := h.current hfun
    exact ⟨x, hmem.mpr hx⟩

/-! ## One step -/

/-- What holds of every outline that events in good order lead to. -/
structure Valid (o : Outline) : Prop where
  names : o.Scoped
  functions : o.Signed

theorem Valid.start (literals : Cells Ty) : (Outline.start literals).Valid :=
  ⟨Scoped.start literals, Signed.start literals⟩

theorem Valid.declareData {o : Outline} (h : o.Valid) {d : Decl} (hd : o.CanDeclare (.data d)) :
    (o.declare (.data d)).Valid :=
  ⟨h.names.declare hd, h.functions.declareData hd.1⟩

theorem Valid.settle {o : Outline} (h : o.Valid) (e : Expr) (type : Option Ty) :
    (o.settle e type).Valid :=
  ⟨h.names.same rfl rfl rfl rfl, ⟨h.functions.signed, h.functions.current⟩⟩

theorem Valid.enterFunction {o : Outline} (h : o.Valid) {f : Function}
    (hd : o.CanDeclare (.function f)) (hn : o.Unopened f.id) (hh : o.header = none) :
    (o.step (.enterFunction f)).Valid := by
  obtain ⟨hregions, hsignatures, -, -⟩ := declare_frame o (.function f)
  have hn' : (o.declare (.function f)).Unopened f.id := by
    intro around
    rw [hregions]
    exact hn around
  have hs := (h.names.declare hd).opened hn'
  refine ⟨hs.same rfl rfl rfl rfl, ⟨?_, ?_⟩⟩
  · intro x g hm
    rcases (mem_declared_declare hd.1).mp hm with hm | ⟨frame, -, hm⟩
    · -- A function declared before is signed: no signature was open.
      rcases h.functions.signed hm with hsg | ⟨hopen, -⟩
      · refine Or.inl ?_
        have hsame : (o.step (.enterFunction f)).signatures = o.signatures := hsignatures
        rw [hsame]
        exact hsg
      · rw [hh] at hopen
        cases hopen
    · cases hm
      exact Or.inr ⟨rfl, rfl⟩
  · intro g hg
    have he : f = g := by simpa [Outline.step] using hg
    subst he
    cases hfr : o.frames with
    | nil => exact absurd hfr hd.1
    | cons frame outer =>
      exact ⟨frame.node, (mem_declared_declare hd.1).mpr (Or.inr ⟨frame, by simp [hfr], rfl⟩)⟩

theorem Valid.exitParams {o : Outline} (h : o.Valid) {f : Function}
    (hf : o.function = some f) (hs : o.signatures.get f.id = none) :
    (o.step (.exitParams f)).Valid := by
  refine ⟨h.names.same rfl rfl rfl rfl, ⟨?_, h.functions.current⟩⟩
  intro x g hm
  refine Or.inl ?_
  simp only [Outline.step, Cells.get_put]
  rcases h.functions.signed hm with hsg | ⟨-, hg⟩
  · have hne : f.id ≠ g.id := by
      intro he
      rw [← he, hs] at hsg
      cases hsg
    rw [if_neg hne]
    exact hsg
  · rw [hf] at hg
    cases hg
    rw [if_pos rfl]

theorem Valid.leaveFunction {o : Outline} (h : o.Valid) (hh : o.header = none) :
    Valid { o with function := none } := by
  refine ⟨h.names.same rfl rfl rfl rfl, ⟨?_, by simp⟩⟩
  intro x g hm
  rcases h.functions.signed hm with hsg | ⟨hopen, -⟩
  · exact Or.inl hsg
  · rw [hh] at hopen
    cases hopen

theorem Valid.enterParam {o : Outline} (h : o.Valid) {f : Function} {d : Decl}
    (hd : o.CanDeclare (.data d)) : (o.step (.enterParam f d)).Valid := by
  have hv := h.declareData hd
  have hheader : (o.declare (.data d)).header = o.header := (declare_frame o (.data d)).2.2.1
  refine ⟨hv.names.same rfl rfl rfl rfl, ⟨?_, hv.functions.current⟩⟩
  intro x g hm
  refine (hv.functions.signed hm).imp id ?_
  rintro ⟨hopen, hfun⟩
  refine ⟨?_, hfun⟩
  rw [hheader] at hopen
  simpa [Outline.step] using hopen

/-- **One step keeps an outline valid**, if the event comes where the check expects it. -/
theorem Valid.step {o : Outline} (h : o.Valid) {event : Event} (hp : o.Permits event) :
    (o.step event).Valid := by
  cases event with
  | enterProgram p =>
    exact ⟨h.names.opened (unopened_of_nil hp.1), ⟨h.functions.signed, h.functions.current⟩⟩
  | enterBlock b => exact ⟨h.names.opened hp.2, ⟨h.functions.signed, h.functions.current⟩⟩
  | exitProgram p => exact ⟨h.names.closed, ⟨h.functions.signed, h.functions.current⟩⟩
  | exitBlock b => exact ⟨h.names.closed, ⟨h.functions.signed, h.functions.current⟩⟩
  | enterStart s => exact h.leaveFunction hp
  | enterDecl d => exact h.declareData hp
  | enterFunction f => exact h.enterFunction hp.1 hp.2.1 hp.2.2
  | exitFunction f =>
    have hc : o.closed.Valid := ⟨h.names.closed, ⟨h.functions.signed, h.functions.current⟩⟩
    exact hc.leaveFunction hp.2
  | enterParam f d => exact h.enterParam hp.1
  | exitParams f => exact h.exitParams hp.1 hp.2.2
  | enterAssign a => exact ⟨h.names.refer hp _ _, ⟨h.functions.signed, h.functions.current⟩⟩
  | enterVariable e name => exact ⟨h.names.refer hp _ _, ⟨h.functions.signed, h.functions.current⟩⟩
  | enterCall e callee args => exact ⟨h.names.refer hp _ _, ⟨h.functions.signed, h.functions.current⟩⟩
  | exitVariable e name => exact h.settle e _
  | exitCall e callee args => exact h.settle e _
  | exitBinary e op token lhs rhs => exact h.settle e _
  | exitUnary e op token operand => exact h.settle e _
  | exitCast e target operand => exact h.settle e _
  | exitGrouped e inner => exact h.settle e _
  | exitFormat e token args => exact h.settle e _
  | enterImport | exitStart | enterData | exitData | exitAssign | enterIf | exitIf | enterWhile
  | exitWhile | enterDo | exitDo | exitReturn | exitYield | enterBreak | enterContinue
  | enterInline | enterExpr | exitExpr | exitLiteral => exact h

/-- Scopes are opened and closed as the events say. -/
theorem nodes_step (o : Outline) (event : Event) :
    (o.step event).frames.map Frame.node = event.scopes (o.frames.map Frame.node) := by
  cases event with
  | enterDecl d => exact nodes_declare o _
  | enterParam f d => exact nodes_declare o _
  | enterFunction f => exact congrArg (f.id :: ·) (nodes_declare o _)
  | exitProgram p | exitFunction f | exitBlock b =>
    simp [Outline.step, Outline.closed, Event.scopes, List.map_tail]
  | _ => rfl

/-- Scopes that were opened stay on record. -/
theorem regions_step (o : Outline) (event : Event) : o.regions <+: (o.step event).regions := by
  have hdeclare : ∀ d, (o.declare d).regions = o.regions := fun d => (declare_frame o d).1
  cases event with
  | enterProgram p | enterBlock b => exact List.prefix_append _ _
  | enterFunction f =>
    simp only [Outline.step, Outline.opened, hdeclare]
    exact List.prefix_append _ _
  | enterDecl d | enterParam f d => exact (hdeclare _).symm ▸ List.prefix_rfl
  | _ => exact List.prefix_rfl

theorem regions_run (o : Outline) (events : List Event) : o.regions <+: (o.run events).regions := by
  induction events generalizing o with
  | nil => exact List.prefix_rfl
  | cons event rest ih => exact (o.regions_step event).trans (ih (o.step event))

theorem Valid.run {o : Outline} (h : o.Valid) {events : List Event} (ho : o.Orderly events) :
    (o.run events).Valid := by
  induction events generalizing o with
  | nil => exact h
  | cons event rest ih => exact ih (h.step ho.1) ho.2

end Outline

end Semant
