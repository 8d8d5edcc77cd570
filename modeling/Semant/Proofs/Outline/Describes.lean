import Semant.Proofs.Outline.Valid
import Semant.Proofs.Steps
import Semant.Proofs.Store

/-!
# When an outline describes the state of a check

`Outline.Describes` ties the tables of a check to what a reader would have written down. The place
of a scope is its number among all scopes, and the place of a symbol its number among all
declarations, refused ones included; both are therefore known from the outline alone.

The clause that carries the rest is `bindings`, for open and closed scopes alike: a scope binds
exactly the declarations made in it that stand for themselves. Together with `Outline.Scoped` it
gives `Describes.find?_eq`, that following links from the active scope finds the oldest declaration
that can be seen.

Each way in which a step of the check changes its state gets one lemma here.
-/

set_option autoImplicit false

namespace Semant

namespace Outline

/-- The state of a check is what the outline says. -/
structure Describes (o : Outline) (s : Pass) : Prop where
  size : s.store.scopes.size = o.regions.length
  next : s.stack.next = o.regions.length
  number : ∀ {k : ScopeRef}, k < o.regions.length → (s.store.scope k).id = k
  root : s.stack.root = o.regions.head?.map fun _ => 0
  /-- The scope of a node is the one with the node's number among all that open scopes. -/
  recorded : ∀ {node : NodeId} {k : ScopeRef},
    s.store.notes.scopes.get node = some k ↔ ∃ around, o.regions[k]? = some (node, around)
  parent : ∀ {k : ScopeRef} {node : NodeId} {around : Option NodeId},
    o.regions[k]? = some (node, around) →
      (s.store.scope k).parent = around.bind s.store.notes.scopes.get
  descends : s.store.Descends
  active : s.stack.active = o.frames.head?.bind fun frame => s.store.notes.scopes.get frame.node
  /-- A scope binds the declarations made in it that stand for themselves. -/
  bindings : ∀ {k : ScopeRef} {node : NodeId} {around : Option NodeId},
    o.regions[k]? = some (node, around) → ∀ (name : String) (ref : SymbolRef),
      s.store.findLocal? k name = some ref ↔ o.Binds node name ref
  count : s.store.symbols.size = o.declared.length
  symbol : ∀ {place : SymbolRef} {node : NodeId} {d : Definition},
    o.declared[place]? = some (node, d) →
      (s.store.symbol place).definition = d ∧ (s.store.symbol place).type = d.type
  signature : ∀ {place : SymbolRef} {node : NodeId} {f : Function},
    o.declared[place]? = some (node, .function f) →
      o.symbolOf f.id = some ⟨place, .function f⟩ →
        (s.store.symbol place).signature = o.signatures.get f.id
  slots : ∀ n, s.store.notes.symbols.get n = (o.symbolOf n).map Entry.place
  types : ∀ n, s.store.notes.types.get n = (o.types.get n).join
  signatures : s.store.notes.signatures = o.signatures
  literals : s.store.notes.literals = o.literals
  header : s.header = o.header
  function : s.function = o.function

theorem Describes.start (literals : Cells Ty) :
    (Outline.start literals).Describes (Pass.start literals) where
  size := rfl
  next := rfl
  number := by simp [Outline.start]
  root := rfl
  recorded := by simp [Pass.start, Outline.start]
  parent := by simp [Outline.start]
  descends := by
    intro ref parent hp
    simp [Pass.start, Store.scope] at hp
  active := rfl
  bindings := by simp [Outline.start]
  count := rfl
  symbol := by simp [Outline.start]
  signature := by simp [Outline.start]
  slots := by simp [Pass.start, Outline.start, symbolOf]
  types := by simp [Pass.start, Outline.start]
  signatures := rfl
  literals := rfl
  header := rfl
  function := rfl

variable {o : Outline} {s : Pass}

/-! ## Reading the tables -/

theorem Describes.typeOf (h : o.Describes s) (e : Expr) :
    s.store.notes.typeOf e = o.typeOf e := by
  cases e with
  | literal id token given => simp [Annotations.typeOf, Outline.typeOf, h.literals]
  | _ => exact h.types _

theorem Describes.region_of_mem (h : o.Describes s) {node : NodeId} {around : Option NodeId}
    (hm : (node, around) ∈ o.regions) :
    ∃ k, s.store.notes.scopes.get node = some k ∧ o.regions[k]? = some (node, around) := by
  obtain ⟨k, hk⟩ := List.mem_iff_getElem?.mp hm
  exact ⟨k, h.recorded.mpr ⟨around, hk⟩, hk⟩

theorem Describes.lt_size (h : o.Describes s) {k : ScopeRef} {region : NodeId × Option NodeId}
    (hr : o.regions[k]? = some region) : k < s.store.scopes.size := by
  rw [h.size]
  exact (List.getElem?_eq_some_iff.mp hr).1

theorem Describes.lt_count (h : o.Describes s) {place : SymbolRef} {x : NodeId × Definition}
    (hd : o.declared[place]? = some x) : place < s.store.symbols.size := by
  rw [h.count]
  exact (List.getElem?_eq_some_iff.mp hd).1

theorem Describes.scopes_eq_none (h : o.Describes s) {node : NodeId} (hn : o.Unopened node) :
    s.store.notes.scopes.get node = none := by
  refine Option.eq_none_iff_forall_ne_some.mpr fun k hk => ?_
  obtain ⟨around, hr⟩ := h.recorded.mp hk
  exact hn around (List.mem_of_getElem? hr)

/-- Seen from an open scope, a name is found if and only if one of the scopes around binds it. -/
theorem Describes.find?_frames (h : o.Describes s) (name : String) :
    ∀ {frames : List Frame} {k : ScopeRef}, Linked o.regions frames →
      (frames.head?.bind fun frame => s.store.notes.scopes.get frame.node) = some k →
      (∀ ref, s.store.find? k name = some ref → ∃ frame ∈ frames, ∃ j,
        s.store.notes.scopes.get frame.node = some j ∧ s.store.findLocal? j name = some ref) ∧
      (∀ frame ∈ frames, ∀ j ref, s.store.notes.scopes.get frame.node = some j →
        s.store.findLocal? j name = some ref → (s.store.find? k name).isSome)
  | [], k, _, hk => by simp at hk
  | frame :: outer, k, hl, hk => by
    have hk' : s.store.notes.scopes.get frame.node = some k := by simpa using hk
    obtain ⟨around, hr⟩ := h.recorded.mp hk'
    obtain ⟨j, hj, hrj⟩ := h.region_of_mem hl.1
    have hjk : j = k := by
      rw [hk'] at hj
      cases hj
      rfl
    subst hjk
    -- The search goes along links and the recursion along open scopes: `parent` says that the two
    -- take the same way.
    have hp : (s.store.scope j).parent
        = outer.head?.bind fun frame => s.store.notes.scopes.get frame.node := by
      rw [h.parent hrj]
      cases outer <;> rfl
    rw [Store.find?_eq_orElse h.descends, hp]
    cases hq : outer.head?.bind fun frame => s.store.notes.scopes.get frame.node with
    | none =>
      have hnil : outer = [] := by
        cases outer with
        | nil => rfl
        | cons next rest =>
          obtain ⟨i, hi, -⟩ := h.region_of_mem hl.2.1
          simp only [List.head?_cons, Option.bind_some] at hq
          rw [hq] at hi
          cases hi
      subst hnil
      constructor
      · intro ref href
        exact ⟨frame, List.mem_cons_self, j, hk', by simpa using href⟩
      · intro fr hm i ref hi href
        cases List.mem_singleton.mp hm
        rw [hk'] at hi
        cases hi
        simp [href]
    | some i =>
      obtain ⟨hfound, hsome⟩ := h.find?_frames name hl.2 hq
      cases hloc : s.store.findLocal? j name with
      | some found =>
        constructor
        · intro ref href
          exact ⟨frame, List.mem_cons_self, j, hk', hloc.trans (by simpa using href)⟩
        · intro fr hm i' ref hi href
          simp
      | none =>
        constructor
        · intro ref href
          obtain ⟨fr, hm, i', hi, hf⟩ := hfound ref (by simpa using href)
          exact ⟨fr, List.mem_cons_of_mem _ hm, i', hi, hf⟩
        · intro fr hm i' ref hi href
          rcases List.mem_cons.mp hm with rfl | hm
          · rw [hk'] at hi
            cases hi
            rw [hloc] at href
            cases href
          · simpa using hsome fr hm i' ref hi href

/-- What an open scope binds can be seen, and stands for itself. -/
theorem Describes.visible_of_findLocal? (h : o.Describes s) (hv : o.Scoped) {frame : Frame}
    (hm : frame ∈ o.frames) {k : ScopeRef} (hk : s.store.notes.scopes.get frame.node = some k)
    {name : String} {ref : SymbolRef} :
    s.store.findLocal? k name = some ref ↔
      ∃ d : Definition, (⟨ref, d⟩ : Entry) ∈ frame.entries ∧ d.name = name ∧
        o.symbolOf d.id = some ⟨ref, d⟩ := by
  obtain ⟨around, hr⟩ := h.recorded.mp hk
  rw [h.bindings hr]
  exact exists_congr fun d => and_congr (hv.entries frame hm ⟨ref, d⟩).symm Iff.rfl

/-- **Following links from the active scope finds the oldest declaration that can be seen.** -/
theorem Describes.find?_eq (h : o.Describes s) (hv : o.Scoped) {k : ScopeRef}
    (hk : s.stack.active = some k) (name : String) :
    s.store.find? k name = (lookup o.scope name).map Entry.place := by
  obtain ⟨hfound, hsome⟩ := h.find?_frames name hv.linked (h.active.symm.trans hk)
  -- Whatever is found is bound, and of the bound declarations there is only the oldest.
  have honly : ∀ ref, s.store.find? k name = some ref →
      ∃ d : Definition, lookup o.scope name = some ⟨ref, d⟩ := by
    intro ref href
    obtain ⟨frame, hm, j, hj, hloc⟩ := hfound ref href
    obtain ⟨d, he, rfl, hs⟩ := (h.visible_of_findLocal? hv hm hj).mp hloc
    exact ⟨d, hv.oldest (mem_visible.mpr ⟨frame, hm, he⟩) hs⟩
  cases hl : lookup o.scope name with
  | none =>
    cases hf : s.store.find? k name with
    | none => rfl
    | some ref =>
      obtain ⟨d, hd⟩ := honly ref hf
      rw [hl] at hd
      cases hd
  | some entry =>
    obtain ⟨frame, hm, he⟩ := mem_visible.mp (lookup_mem hl)
    obtain ⟨around, ha⟩ := hv.linked.node_mem frame hm
    obtain ⟨j, hj, -⟩ := h.region_of_mem ha
    have hloc : s.store.findLocal? j name = some entry.place :=
      (h.visible_of_findLocal? hv hm hj).mpr ⟨entry.definition, he, lookup_name hl, hv.bound hl⟩
    obtain ⟨ref, href⟩ := Option.isSome_iff_exists.mp (hsome frame hm j entry.place hj hloc)
    obtain ⟨d, hd⟩ := honly ref href
    rw [hl] at hd
    cases hd
    exact href

theorem Describes.active_isSome (h : o.Describes s) (hv : o.Scoped) (hf : o.frames ≠ []) :
    ∃ k, s.stack.active = some k ∧ k < s.store.scopes.size := by
  cases hfr : o.frames with
  | nil => exact absurd hfr hf
  | cons frame outer =>
    obtain ⟨around, ha⟩ := hv.linked.node_mem frame (by rw [hfr]; exact List.mem_cons_self)
    obtain ⟨k, hk, hr⟩ := h.region_of_mem ha
    refine ⟨k, ?_, h.lt_size hr⟩
    rw [h.active, hfr]
    simpa using hk

/-! ## Changing the tables -/

/-- Diagnostics and the log are no part of what an outline describes. -/
theorem Describes.logged (h : o.Describes s) (log : Array LogEntry) :
    o.Describes (s.logged log) :=
  ⟨h.size, h.next, h.number, h.root, h.recorded, h.parent, h.descends, h.active, h.bindings,
    h.count, h.symbol, h.signature, h.slots, h.types, h.signatures, h.literals, h.header,
    h.function⟩

theorem Describes.reporting (h : o.Describes s) (ds : Diagnostics) :
    o.Describes (s.reporting ds) :=
  ⟨h.size, h.next, h.number, h.root, h.recorded, h.parent, h.descends, h.active, h.bindings,
    h.count, h.symbol, h.signature, h.slots, h.types, h.signatures, h.literals, h.header,
    h.function⟩

theorem Describes.inFunction (h : o.Describes s) (f : Option Function) :
    Describes { o with function := f } { s with function := f } :=
  ⟨h.size, h.next, h.number, h.root, h.recorded, h.parent, h.descends, h.active, h.bindings,
    h.count, h.symbol, h.signature, h.slots, h.types, h.signatures, h.literals, h.header, rfl⟩

theorem Describes.inHeader (h : o.Describes s) (header : Option Signature) :
    Describes { o with header } { s with header } :=
  ⟨h.size, h.next, h.number, h.root, h.recorded, h.parent, h.descends, h.active, h.bindings,
    h.count, h.symbol, h.signature, h.slots, h.types, h.signatures, h.literals, rfl, h.function⟩

/-! ### Opening a scope

The new scope is the last one, and nothing that was there before mentions its node. -/

theorem scopes_opening (s : Pass) (node n : NodeId) :
    (s.opening node).store.notes.scopes.get n
      = if node = n then some s.store.scopes.size else s.store.notes.scopes.get n :=
  Cells.get_put _ _ _ _

theorem scope_opening (s : Pass) (node : NodeId) (k : ScopeRef) :
    (s.opening node).store.scope k
      = if k = s.store.scopes.size then { id := s.stack.next, parent := s.stack.active }
        else s.store.scope k :=
  Store.scope_addScope _ _ k

/-- A scope is an old one or the one that was just opened. -/
theorem Describes.region_opened (h : o.Describes s) {node : NodeId} {k : ScopeRef} {x : NodeId}
    {around : Option NodeId} :
    (o.opened node).regions[k]? = some (x, around) ↔ o.regions[k]? = some (x, around) ∨
      (k = s.store.scopes.size ∧ x = node ∧ around = o.frames.head?.map Frame.node) := by
  rw [h.size]
  refine getElem?_snoc.trans (or_congr Iff.rfl (and_congr Iff.rfl ?_))
  rw [Prod.mk.injEq, eq_comm, @eq_comm _ around]

/-- The scopes that were there before keep their places. -/
theorem Unopened.scopes_opening {node n : NodeId} (hn : o.Unopened node) {around : Option NodeId}
    (hm : (n, around) ∈ o.regions) (s : Pass) :
    (s.opening node).store.notes.scopes.get n = s.store.notes.scopes.get n := by
  rw [Outline.scopes_opening, if_neg]
  rintro rfl
  exact hn around hm

theorem Describes.recorded_opening (h : o.Describes s) {node : NodeId} (hn : o.Unopened node)
    {x : NodeId} {k : ScopeRef} :
    (s.opening node).store.notes.scopes.get x = some k ↔
      ∃ around, (o.opened node).regions[k]? = some (x, around) := by
  simp only [h.region_opened, scopes_opening]
  by_cases hx : node = x
  · subst hx
    rw [if_pos rfl]
    constructor
    · intro hk
      exact ⟨_, Or.inr ⟨(Option.some.inj hk).symm, rfl, rfl⟩⟩
    · rintro ⟨around, hr | ⟨rfl, -, -⟩⟩
      · exact absurd (List.mem_of_getElem? hr) (hn around)
      · rfl
  · rw [if_neg hx, h.recorded]
    refine exists_congr fun around => ⟨Or.inl, ?_⟩
    rintro (hr | ⟨-, he, -⟩)
    · exact hr
    · exact absurd he.symm hx

theorem Describes.parent_opening (h : o.Describes s) (hv : o.Scoped) {node : NodeId}
    (hn : o.Unopened node) {k : ScopeRef} {x : NodeId} {around : Option NodeId}
    (hr : (o.opened node).regions[k]? = some (x, around)) :
    ((s.opening node).store.scope k).parent
      = around.bind (s.opening node).store.notes.scopes.get := by
  rcases h.region_opened.mp hr with hr | ⟨rfl, -, rfl⟩
  · rw [scope_opening, if_neg (Nat.ne_of_lt (h.lt_size hr)), h.parent hr]
    cases around with
    | none => rfl
    | some outer =>
      obtain ⟨next, hm⟩ := hv.around (List.mem_of_getElem? hr)
      exact (hn.scopes_opening hm s).symm
  · rw [scope_opening, if_pos rfl]
    refine h.active.trans ?_
    cases hf : o.frames with
    | nil => rfl
    | cons frame outer =>
      obtain ⟨next, hm⟩ := hv.linked.node_mem frame (by rw [hf]; exact List.mem_cons_self)
      exact (hn.scopes_opening hm s).symm

theorem Describes.descends_opening (h : o.Describes s) (node : NodeId) :
    (s.opening node).store.Descends := by
  intro k parent hp
  rw [scope_opening] at hp
  split at hp
  · rename_i he
    rw [he]
    have hactive : s.stack.active = some parent := hp
    obtain ⟨frame, -, hg⟩ := Option.bind_eq_some_iff.mp (h.active.symm.trans hactive)
    obtain ⟨around, hr⟩ := h.recorded.mp hg
    exact h.lt_size hr
  · exact h.descends k parent hp

theorem Describes.bindings_opening (h : o.Describes s) (hv : o.Scoped) {node : NodeId}
    (hn : o.Unopened node) {k : ScopeRef} {x : NodeId} {around : Option NodeId}
    (hr : (o.opened node).regions[k]? = some (x, around)) (name : String) (ref : SymbolRef) :
    (s.opening node).store.findLocal? k name = some ref ↔ (o.opened node).Binds x name ref := by
  rcases h.region_opened.mp hr with hr | ⟨rfl, rfl, rfl⟩
  · have hfind : (s.opening node).store.findLocal? k name = s.store.findLocal? k name :=
      Store.findLocal?_addScope s.store _ k name (h.lt_size hr)
    rw [hfind]
    exact h.bindings hr name ref
  · -- A scope that was just opened binds nothing, and nothing was declared in it.
    simp only [Store.findLocal?, scope_opening, if_pos]
    constructor
    · intro hf
      simp [Bindings.find?] at hf
    · rintro ⟨d, hd, -⟩
      obtain ⟨next, hm⟩ := hv.home (List.mem_of_getElem? hd)
      exact absurd hm (hn next)

theorem Describes.opened (h : o.Describes s) (hv : o.Scoped) {node : NodeId}
    (hn : o.Unopened node) : (o.opened node).Describes (s.opening node) where
  size := by simp [Outline.opened, Pass.opening, Store.size_addScope, h.size]
  next := by simp [Outline.opened, Pass.opening, h.next]
  number := by
    intro k hk
    have hle : k ≤ o.regions.length := Nat.le_of_lt_succ (by simpa [Outline.opened] using hk)
    rw [scope_opening, h.size]
    -- the new scope has the next number, the others keep theirs
    by_cases hlast : k = o.regions.length
    · rw [if_pos hlast, hlast]
      exact h.next
    · rw [if_neg hlast]
      exact h.number (Nat.lt_of_le_of_ne hle hlast)
  root := by
    simp only [Outline.opened, Pass.opening, h.root, h.size]
    cases o.regions <;> simp
  recorded := h.recorded_opening hn
  parent := h.parent_opening hv hn
  descends := h.descends_opening node
  active := ((scopes_opening s node node).trans (if_pos rfl)).symm
  bindings := h.bindings_opening hv hn
  count := h.count
  symbol := h.symbol
  signature := h.signature
  slots := h.slots
  types := h.types
  signatures := h.signatures
  literals := h.literals
  header := h.header
  function := h.function

/-- Leaving the innermost scope makes the one around it active. -/
theorem Describes.closed (h : o.Describes s) (hv : o.Scoped) {k : ScopeRef}
    (hk : s.stack.active = some k) (log : Array LogEntry) :
    o.closed.Describes
      { s with stack := { s.stack with active := (s.store.scope k).parent }, log } := by
  refine ⟨h.size, h.next, h.number, h.root, h.recorded, h.parent, h.descends, ?_, h.bindings,
    h.count, h.symbol, h.signature, h.slots, h.types, h.signatures, h.literals, h.header,
    h.function⟩
  rw [h.active] at hk
  cases hf : o.frames with
  | nil =>
    rw [hf] at hk
    cases hk
  | cons frame outer =>
    have hl := hv.linked
    rw [hf] at hk hl
    obtain ⟨j, hj, hr⟩ := h.region_of_mem hl.1
    have hjk : j = k := by
      rw [show s.store.notes.scopes.get frame.node = some k from hk] at hj
      cases hj
      rfl
    subst hjk
    simp only [Outline.closed, hf, List.tail_cons]
    rw [h.parent hr]
    cases outer <;> rfl

/-- A declaration that stands for nothing is written down with a symbol that nothing refers to. -/
theorem Describes.write (h : o.Describes s) (hv : o.Scoped) {d : Definition} {symbol : Symbol}
    (hd : o.CanDeclare d) (hdef : symbol.definition = d) (hty : symbol.type = d.type) :
    (o.write d none).Describes (s.storing (s.store.addSymbol symbol)) := by
  have hbinds := hv.binds_write hd false
  simp only [Bool.false_eq_true, if_false, false_and, or_false] at hbinds
  have hother := fun {place : SymbolRef} {node : NodeId} {d' : Definition}
    (hm : o.declared[place]? = some (node, d')) => hv.symbolOf_write hd none hm
  cases hfr : o.frames with
  | nil => exact absurd hfr hd.1
  | cons frame outer =>
    rw [write_eq d none hfr] at hbinds hother ⊢
    -- The new symbol takes the last place, so all others keep theirs.
    have hsymbol : ∀ {place : SymbolRef} {node : NodeId} {d' : Definition},
        o.declared[place]? = some (node, d') →
          (s.store.addSymbol symbol).symbol place = s.store.symbol place := by
      intro place node d' hm
      rw [Store.symbol_addSymbol, if_neg (Nat.ne_of_lt (h.lt_count hm))]
    refine ⟨h.size, h.next, h.number, h.root, h.recorded, h.parent, h.descends, ?_, ?_, ?_, ?_, ?_,
      ?_, h.types, h.signatures, h.literals, h.header, h.function⟩
    · have ha := h.active
      rw [hfr] at ha
      exact ha
    · intro k node around hr name ref
      exact (h.bindings hr name ref).trans (hbinds node name ref).symm
    · simp [Pass.storing, Store.size_addSymbol, h.count]
    · intro place node d' hm
      rcases getElem?_snoc.mp hm with hm | ⟨hp, he⟩
      · simp only [Pass.storing, hsymbol hm]
        exact h.symbol hm
      · cases he
        simp only [Pass.storing, Store.symbol_addSymbol, hp, h.count, if_pos]
        exact ⟨hdef, hty⟩
    · intro place node f hm hs
      rcases getElem?_snoc.mp hm with hm | ⟨-, he⟩
      · simp only [Pass.storing, hsymbol hm]
        exact h.signature hm ((hother hm).symm.trans hs)
      · cases he
        simp [symbolOf, Cells.get_put, Definition.id] at hs
    · intro n
      refine (h.slots n).trans (congrArg _ ?_)
      simp only [symbolOf, Cells.get_put]
      split
      · rename_i hn
        rw [← hn, hd.2.1]
        rfl
      · rfl

/-- A declaration that was written down is bound under its name, if the name is free. -/
theorem Describes.bind {d : Definition} (h : (o.write d none).Describes s) (hv : o.Scoped)
    (hd : o.CanDeclare d) (hfree : lookup o.scope d.name = none)
    (hsig : (s.store.symbol o.declared.length).signature = none) {k : ScopeRef}
    (hk : s.stack.active = some k) :
    (o.write d (some (o.entryOf d))).Describes
      (s.storing ((s.store.bindIn k o.declared.length).annotate
        (s.store.notes.withSymbol d.id o.declared.length))) := by
  have hbefore := hv.binds_write hd false
  have hafter := hv.binds_write hd true
  simp only [Bool.false_eq_true, if_false, false_and, or_false, if_true, true_and] at hbefore hafter
  have hother := fun (stands : Option Entry) {place : SymbolRef} {node : NodeId} {d' : Definition}
    (hm : o.declared[place]? = some (node, d')) => hv.symbolOf_write hd stands hm
  cases hfr : o.frames with
  | nil => exact absurd hfr hd.1
  | cons frame outer =>
    have hhere : frame ∈ o.frames := by rw [hfr]; exact List.mem_cons_self
    simp only [write_eq d _ hfr] at h hbefore hafter hother ⊢
    have hnode : s.store.notes.scopes.get frame.node = some k := h.active.symm.trans hk
    obtain ⟨around, hr⟩ := h.recorded.mp hnode
    have hlt : k < s.store.scopes.size := h.lt_size hr
    have hname : (s.store.symbol o.declared.length).name = d.name := by
      have hmine : (o.declared ++ [(frame.node, d)])[o.declared.length]? = some (frame.node, d) := by
        simp
      rw [Symbol.name_eq, (h.symbol hmine).1]
    refine ⟨by simpa [Pass.storing] using h.size, h.next, ?_, h.root, h.recorded, ?_, ?_, h.active,
      ?_, h.count, h.symbol, ?_, ?_, h.types, h.signatures, h.literals, h.header, h.function⟩
    · intro j hj
      exact (Store.id_bindIn s.store k j _).trans (h.number hj)
    · intro j node around hj
      exact (Store.parent_bindIn s.store k j _).trans (h.parent hj)
    · intro j parent hp
      exact h.descends j parent ((Store.parent_bindIn s.store k j _).symm.trans hp)
    · intro j node around' hj name ref
      have hfind := Store.findLocal?_bindIn s.store k j o.declared.length name hlt
      rw [hname] at hfind
      -- The place of a scope and the node that opened it determine each other.
      have hsame : k = j ↔ frame.node = node := by
        constructor
        · rintro rfl
          rw [hr] at hj
          cases hj
          rfl
        · rintro rfl
          exact Option.some.inj (hnode.symm.trans (h.recorded.mpr ⟨around', hj⟩))
      refine Iff.trans ?_ (hafter node name ref).symm
      show (s.store.bindIn k o.declared.length).findLocal? j name = some ref ↔ _
      rw [hfind]
      split
      · rename_i hkj
        obtain ⟨hkj, rfl⟩ := hkj
        have hnot : ¬ o.Binds node d.name ref := hsame.mp hkj ▸ hv.not_binds hfree hhere
        simp [hnot, hsame.mp hkj, hfr, eq_comm]
      · rename_i hkj
        rw [h.bindings hj name ref, hbefore]
        refine ⟨Or.inl, ?_⟩
        rintro (hb | ⟨-, hnd, hn⟩)
        · exact hb
        · exact absurd ⟨hsame.mpr (by simpa [hfr] using hnd), hn.symm⟩ hkj
    · intro place node f hm hs
      rcases getElem?_snoc.mp hm with hm' | ⟨hp, he⟩
      · exact h.signature hm ((hother none hm').trans ((hother _ hm').symm.trans hs))
      · cases he
        subst hp
        exact hsig.trans hd.2.2.1.symm
    · intro n
      have hslot := h.slots n
      show (s.store.notes.symbols.put d.id o.declared.length).get n = _
      simp only [symbolOf, Cells.get_put] at hslot ⊢
      split
      · rfl
      · rename_i hn
        rwa [if_neg hn] at hslot

/-- Symbols may change in what the outline does not say about them. -/
theorem Describes.modifySymbol (h : o.Describes s) (ref : SymbolRef) {f : Symbol → Symbol}
    (hf : ∀ x, (f x).definition = x.definition ∧ (f x).type = x.type ∧
      (f x).signature = x.signature) :
    o.Describes (s.storing (s.store.modifySymbol ref f)) := by
  have hsymbol : ∀ {place : SymbolRef} {x : NodeId × Definition}, o.declared[place]? = some x →
      (s.store.modifySymbol ref f).symbol place
        = if ref = place then f (s.store.symbol place) else s.store.symbol place := by
    intro place x hm
    exact Store.symbol_modifySymbol s.store ref place f (h.lt_count hm)
  refine ⟨h.size, h.next, h.number, h.root, h.recorded, h.parent, h.descends, h.active, h.bindings,
    by simpa [Pass.storing] using h.count, ?_, ?_, h.slots, h.types, h.signatures, h.literals,
    h.header, h.function⟩
  · intro place node d hm
    simp only [Pass.storing, hsymbol hm]
    split
    · rw [(hf _).1, (hf _).2.1]
      exact h.symbol hm
    · exact h.symbol hm
  · intro place node g hm hs
    simp only [Pass.storing, hsymbol hm]
    split
    · rw [(hf _).2.2]
      exact h.signature hm hs
    · exact h.signature hm hs

theorem Describes.refer_ok (h : o.Describes s) (hv : o.Scoped) {node : NodeId}
    (hn : o.CanRefer node) {name : Identifier} {use : Use} {entry : Entry}
    (hr : resolution o.scope name use = .ok entry) :
    (o.refer node name use).Describes
      (s.storing (s.store.annotate (s.store.notes.withSymbol node entry.place))) := by
  refine ⟨h.size, h.next, h.number, h.root, h.recorded, h.parent, h.descends, h.active, ?_, h.count,
    h.symbol, ?_, ?_, h.types, h.signatures, h.literals, h.header, h.function⟩
  · intro k x around hk bound ref
    exact (h.bindings hk bound ref).trans (hv.binds_refer hn name use).symm
  · intro place x f hm hs
    exact h.signature hm ((hv.symbolOf_refer hn name use hm).symm.trans hs)
  · intro n
    have hslot := h.slots n
    show (s.store.notes.symbols.put node entry.place).get n = _
    simp only [symbolOf, Outline.refer, Cells.get_put, hr, Except.toOption] at hslot ⊢
    split
    · rfl
    · exact hslot

theorem Describes.refer_error (h : o.Describes s) (hv : o.Scoped) {node : NodeId}
    (hn : o.CanRefer node) {name : Identifier} {use : Use} {e : SemanticError}
    (hr : resolution o.scope name use = .error e) : (o.refer node name use).Describes s := by
  refine ⟨h.size, h.next, h.number, h.root, h.recorded, h.parent, h.descends, h.active, ?_, h.count,
    h.symbol, ?_, ?_, h.types, h.signatures, h.literals, h.header, h.function⟩
  · intro k x around hk bound ref
    exact (h.bindings hk bound ref).trans (hv.binds_refer hn name use).symm
  · intro place x f hm hs
    exact h.signature hm ((hv.symbolOf_refer hn name use hm).symm.trans hs)
  · intro n
    refine (h.slots n).trans (congrArg _ ?_)
    simp only [symbolOf, Outline.refer, Cells.get_put, hr, Except.toOption]
    split
    · rename_i he
      rw [← he, hn.2]
      rfl
    · rfl

/-- A signature is stored with its function and on the symbol that the function stands for. -/
theorem Describes.sign (h : o.Describes s) {f : Function} {place : SymbolRef} {node : NodeId}
    (hd : o.declared[place]? = some (node, .function f))
    (hself : o.symbolOf f.id = some ⟨place, .function f⟩) :
    Describes { o with signatures := o.signatures.put f.id f.signature }
      (s.storing ((s.store.annotate (s.store.notes.withSignature f.id f.signature)).modifySymbol
        place fun x => { x with signature := some f.signature })) := by
  have hsymbol := fun {p : SymbolRef} {x : NodeId × Definition} (hx : o.declared[p]? = some x) =>
    Store.symbol_modifySymbol s.store place p (fun x => { x with signature := some f.signature })
      (h.lt_count hx)
  refine ⟨h.size, h.next, h.number, h.root, h.recorded, h.parent, h.descends, h.active, h.bindings,
    by simpa [Pass.storing] using h.count, ?_, ?_, h.slots, h.types, ?_, h.literals, h.header,
    h.function⟩
  · intro p x d hx
    show ((s.store.modifySymbol place _).symbol p).definition = d ∧
      ((s.store.modifySymbol place _).symbol p).type = d.type
    rw [hsymbol hx]
    split <;> exact h.symbol hx
  · intro p x g hg hgs
    show ((s.store.modifySymbol place _).symbol p).signature
      = (o.signatures.put f.id f.signature).get g.id
    -- Two functions never share a symbol: each of them stands for itself.
    have hiff : place = p ↔ f.id = g.id := by
      constructor
      · rintro rfl
        cases Option.some.inj (hd.symm.trans hg)
        rfl
      · intro he
        have hgs' : o.symbolOf f.id = some ⟨p, .function g⟩ := he ▸ hgs
        cases hself.symm.trans hgs'
        rfl
    rw [hsymbol hg, Cells.get_put]
    by_cases hp : place = p
    · rw [if_pos hp, if_pos (hiff.mp hp)]
    · rw [if_neg hp, if_neg fun he => hp (hiff.mpr he)]
      exact h.signature hg hgs
  · show s.store.notes.signatures.put f.id f.signature = _
    rw [h.signatures]

/-- The signature of a function whose name was taken is stored with the function only. -/
theorem Describes.sign_refused (h : o.Describes s) {f : Function} (hself : o.symbolOf f.id = none) :
    Describes { o with signatures := o.signatures.put f.id f.signature }
      (s.storing (s.store.annotate (s.store.notes.withSignature f.id f.signature))) := by
  refine ⟨h.size, h.next, h.number, h.root, h.recorded, h.parent, h.descends, h.active, h.bindings,
    h.count, h.symbol, ?_, h.slots, h.types, ?_, h.literals, h.header, h.function⟩
  · intro p x g hg hgs
    have hne : f.id ≠ g.id := by
      intro he
      have hgs' : o.symbolOf f.id = some ⟨p, .function g⟩ := he ▸ hgs
      cases hself.symm.trans hgs'
    show (s.store.symbol p).signature = (o.signatures.put f.id f.signature).get g.id
    rw [Cells.get_put, if_neg hne]
    exact h.signature hg hgs
  · show s.store.notes.signatures.put f.id f.signature = _
    rw [h.signatures]

theorem Describes.settle_some (h : o.Describes s) (e : Expr) (type : Ty) :
    (o.settle e (some type)).Describes
      (s.storing (s.store.annotate (s.store.notes.withType e.id type))) := by
  refine ⟨h.size, h.next, h.number, h.root, h.recorded, h.parent, h.descends, h.active, h.bindings,
    h.count, h.symbol, h.signature, h.slots, ?_, h.signatures, h.literals, h.header, h.function⟩
  intro n
  show (s.store.notes.types.put e.id type).get n = ((o.types.put e.id (some type)).get n).join
  simp only [Cells.get_put]
  split
  · rfl
  · exact h.types n

theorem Describes.settle_none (h : o.Describes s) {e : Expr} (he : o.CanSettle e) :
    (o.settle e none).Describes s := by
  refine ⟨h.size, h.next, h.number, h.root, h.recorded, h.parent, h.descends, h.active, h.bindings,
    h.count, h.symbol, h.signature, h.slots, ?_, h.signatures, h.literals, h.header, h.function⟩
  intro n
  refine (h.types n).trans ?_
  show (o.types.get n).join = ((o.types.put e.id none).get n).join
  simp only [Cells.get_put]
  split
  · rename_i hn
    rw [← hn, he.1]
    rfl
  · rfl

end Outline

end Semant
