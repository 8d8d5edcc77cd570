import Semant.Proofs.ScopeTree

/-!
# No name is lost or counted twice

Every declaration of a program ends up as a bound symbol or as a report that its name was taken, and
every use of a name as a reference of a bound symbol or as a report that it means nothing. So the
symbols, their reference counts and the reports add up to what is in the tree.

Each of the two sums is proved in two halves. The reports are counted along the journal: an event
that declares or uses a name reports it exactly if the node's cell stays empty. The symbols are
counted by what the cells hold: a cell holds a bound symbol, and the cell of a declaration holds the
symbol of that declaration and no other. Reference counts need a third look at the check, since an
outline does not keep them; that nothing but a use of a name changes them is an invariant in the sense
of `Stable`.
-/

set_option autoImplicit false

namespace Semant

/-- The declarations of a program, in the order of the walk. -/
def Program.declarations (p : Program) : List Definition := p.events.filterMap Event.declares?

/-- The uses of names in a program, in the order of the walk. -/
def Program.references (p : Program) : List Reference := p.events.filterMap Event.refers?

/-- The report is about a name that was taken already. -/
def Diagnostic.refusesName (x : Diagnostic) : Bool := x.code = .duplicateSymbol

/-- The report is about a use of a name that means nothing, or nothing of the class it asks for. -/
def Diagnostic.refusesUse (x : Diagnostic) : Bool :=
  x.code = .undefinedSymbol ∨ x.code = .wrongSymbolClass

/-- The symbols bound in the scopes that were made since `store`, scope by scope. -/
def Store.boundSince (after store : Store) : List SymbolRef :=
  (List.range (after.scopes.size - store.scopes.size)).flatMap fun k =>
    after.symbolsIn (store.scopes.size + k)

/-- The references of some symbols, taken together. -/
def Store.totalRefs (store : Store) : List SymbolRef → Nat
  | [] => 0
  | ref :: rest => (store.symbol ref).refs.toNat + store.totalRefs rest

namespace Outline

variable {o : Outline} {s : Pass}

/-! ## Reports -/

theorem refuses_ruling {position : Position} {checked : Except TypeError Checked} {x : Diagnostic}
    (h : x ∈ ruling position checked) : x.refusesName = false ∧ x.refusesUse = false := by
  unfold ruling at h
  split at h
  · cases List.mem_singleton.mp h
    rename_i warning
    cases warning <;> exact ⟨rfl, rfl⟩
  · cases h
  · cases List.mem_singleton.mp h
    rename_i e
    cases e with
    | incompatibleAssignment target value => cases value <;> exact ⟨rfl, rfl⟩
    | _ => exact ⟨rfl, rfl⟩

theorem refuses_misfit {e : Expr} {callee : Identifier} {args : List Expr} {x : Diagnostic}
    (h : x ∈ o.misfit e callee args) : x.refusesName = false ∧ x.refusesUse = false := by
  unfold misfit at h
  split at h
  · split at h
    · cases h
    · cases List.mem_singleton.mp h
      rename_i fault _
      cases fault <;> exact ⟨rfl, rfl⟩
  · cases h

theorem refuses_misreturn {keyword : Token} {value : Option Expr} {x : Diagnostic}
    (h : x ∈ o.misreturn keyword value) : x.refusesName = false ∧ x.refusesUse = false := by
  unfold misreturn at h
  split at h
  · cases h
  · split at h
    · cases h
    · cases List.mem_singleton.mp h
      exact ⟨rfl, rfl⟩
  · split at h
    · cases List.mem_singleton.mp h
      exact ⟨rfl, rfl⟩
    · cases h

/-- Only declarations and uses of names report names that are taken or mean nothing. -/
theorem refuses_reports {event : Event} (hd : event.declares? = none) (hr : event.refers? = none)
    {x : Diagnostic} (h : x ∈ o.reports event) : x.refusesName = false ∧ x.refusesUse = false := by
  rcases List.mem_append.mp h with h | h
  · cases event with
    | exitCall e callee args => exact refuses_misfit h
    | exitReturn keyword value => exact refuses_misreturn h
    | enterDecl d | enterParam f d | enterFunction f => cases hd
    | enterAssign a | enterVariable e name | enterCall e callee args => cases hr
    | _ => cases h
  · cases hq : o.question event with
    | none =>
      rw [hq] at h
      cases h
    | some asked =>
      rw [hq] at h
      exact refuses_ruling h

/-- A name that is declared again is refused once, and no use is. -/
theorem refuses_duplicate (d : Definition) :
    (o.duplicate d).countP Diagnostic.refusesName
        = (if (lookup o.scope d.name).isSome then 1 else 0) ∧
      (o.duplicate d).countP Diagnostic.refusesUse = 0 := by
  unfold duplicate
  cases lookup o.scope d.name with
  | none => exact ⟨rfl, rfl⟩
  | some old => exact ⟨rfl, rfl⟩

/-- A use that does not resolve is refused once, and no name is. -/
theorem refuses_unresolved (name : Identifier) (use : Use) :
    (o.unresolved name use).countP Diagnostic.refusesName = 0 ∧
      (o.unresolved name use).countP Diagnostic.refusesUse
        = if (resolution o.scope name use).toOption.isSome then 0 else 1 := by
  unfold unresolved
  cases hr : resolution o.scope name use with
  | ok entry => exact ⟨rfl, rfl⟩
  | error e =>
    have he : e = .undefinedSymbol name.name ∨ e = use.mismatch name.name := by
      unfold resolution at hr
      split at hr
      · cases hr
        exact .inl rfl
      · split at hr
        · cases hr
        · cases hr
          exact .inr rfl
    rcases he with rfl | rfl
    · exact ⟨rfl, rfl⟩
    · cases use <;> exact ⟨rfl, rfl⟩

/-- A declaration is refused exactly if its cell stays empty. -/
theorem refusesName_step {event : Event} (hp : o.Permits event) :
    (o.reports event).countP Diagnostic.refusesName
        = event.declares?.toList.countP (fun d => ((o.step event).symbolOf d.id).isNone) ∧
      ∀ d, event.declares? = some d → ((o.step event).symbols.get d.id).isSome := by
  cases hd : event.declares? with
  | none =>
    refine ⟨?_, fun d hsome => by cases hsome⟩
    show _ = 0
    -- what is reported without a declaration is about a use or about types, and refuses no name
    cases hr : event.refers? with
    | none =>
      refine List.countP_eq_zero.mpr fun x hx => ?_
      rw [(refuses_reports hd hr hx).1]
      exact Bool.false_ne_true
    | some r =>
      rw [(of_refers hr).2]
      exact (refuses_unresolved r.name r.use).1
  | some d =>
    obtain ⟨-, hslot, others, hreports, hothers⟩ := of_declares hd hp
    refine ⟨?_, ?_⟩
    · have hplain : others.countP Diagnostic.refusesName = 0 := by
        refine List.countP_eq_zero.mpr fun x hx => ?_
        simp [Diagnostic.refusesName, Diagnostic.code, hothers x hx, Finding.code, SemanticError.code]
      rw [hreports, List.countP_append, hplain, (refuses_duplicate d).1, Nat.zero_add]
      simp only [Option.toList_some, List.countP_singleton, symbolOf, hslot, Option.join_some]
      cases lookup o.scope d.name <;> rfl
    · rintro _ ⟨⟩
      rw [hslot]
      rfl

/-- A use is refused exactly if its cell stays empty. -/
theorem refusesUse_step {event : Event} (hp : o.Permits event) :
    (o.reports event).countP Diagnostic.refusesUse
        = event.refers?.toList.countP (fun r => ((o.step event).symbolOf r.node).isNone) ∧
      ∀ r, event.refers? = some r → ((o.step event).symbols.get r.node).isSome := by
  cases hr : event.refers? with
  | none =>
    refine ⟨?_, fun r hsome => by cases hsome⟩
    show _ = 0
    cases hd : event.declares? with
    | none =>
      refine List.countP_eq_zero.mpr fun x hx => ?_
      rw [(refuses_reports hd hr hx).2]
      exact Bool.false_ne_true
    | some d =>
      obtain ⟨-, -, others, hreports, hothers⟩ := of_declares hd hp
      rw [hreports, List.countP_append, (refuses_duplicate d).2, Nat.add_zero]
      refine List.countP_eq_zero.mpr fun x hx => ?_
      simp [Diagnostic.refusesUse, Diagnostic.code, hothers x hx, Finding.code, SemanticError.code]
  | some r =>
    obtain ⟨hslot, hreports⟩ := of_refers (o := o) hr
    refine ⟨?_, ?_⟩
    · rw [hreports, (refuses_unresolved r.name r.use).2]
      simp only [Option.toList_some, List.countP_singleton, symbolOf, hslot, Option.join_some]
      cases (resolution o.scope r.name r.use).toOption <;> rfl
    · rintro _ ⟨⟩
      rw [hslot]
      rfl

/-- Cells that were written once stay as they are, so what is counted by the cells in the end can be
counted event by event. -/
theorem countP_cons_run {α : Type} {pick : Event → Option α} {node : α → NodeId} {event : Event}
    {rest : List Event} (ho : (o.step event).Orderly rest)
    (hcell : ∀ x, pick event = some x → ((o.step event).symbols.get (node x)).isSome)
    (q : Option Entry → Bool) :
    ((event :: rest).filterMap pick).countP (fun x => q ((o.run (event :: rest)).symbolOf (node x)))
      = (pick event).toList.countP (fun x => q ((o.step event).symbolOf (node x)))
        + (rest.filterMap pick).countP fun x => q (((o.step event).run rest).symbolOf (node x)) := by
  cases hx : pick event with
  | none =>
    rw [List.filterMap_cons_none hx]
    exact (Nat.zero_add _).symm
  | some x =>
    obtain ⟨cell, hget⟩ := Option.isSome_iff_exists.mp (hcell x hx)
    have hkept : ((o.step event).run rest).symbolOf (node x) = (o.step event).symbolOf (node x) := by
      simp only [symbolOf, symbols_run ho hget, hget]
    rw [List.filterMap_cons_some hx, List.countP_cons, run_cons, hkept, Nat.add_comm,
      Option.toList_some, List.countP_singleton]

/-- **What is refused along a run has an empty cell in the end.** -/
theorem countP_journal {α : Type} {refuses : Diagnostic → Bool} {pick : Event → Option α}
    {node : α → NodeId}
    (hstep : ∀ {o : Outline} {event : Event}, o.Permits event →
      (o.reports event).countP refuses
          = (pick event).toList.countP (fun x => ((o.step event).symbolOf (node x)).isNone) ∧
        ∀ x, pick event = some x → ((o.step event).symbols.get (node x)).isSome)
    {events : List Event} (ho : o.Orderly events) :
    ((o.journal events).flatMap Prod.snd).countP refuses
      = (events.filterMap pick).countP fun x => ((o.run events).symbolOf (node x)).isNone := by
  induction events generalizing o with
  | nil => rfl
  | cons event rest ih =>
    obtain ⟨hcount, hcell⟩ := hstep ho.1
    rw [journal, List.flatMap_cons, List.countP_append, ih ho.2, hcount,
      countP_cons_run ho.2 hcell Option.isNone]

/-! ## References -/

/-- Everything but the use of names. -/
def uncounted : Territory where
  opens _ := True
  symbols _ := True
  signs _ := True
  types _ := True
  counts := False

/-- Nothing but a use of a name changes how often symbols are referred to. -/
theorem stable_refs (count : SymbolRef → UInt32) :
    Stable uncounted fun s => ∀ ref, (s.store.symbol ref).refs = count ref where
  logged h _ := h
  reporting h _ := h
  heading h _ := h
  inside h _ := h
  entering h := h
  leaving h _ _ := h
  adding {s} h added hrefs := by
    intro ref
    change ((s.store.addSymbol added).symbol ref).refs = count ref
    rw [Store.symbol_addSymbol]
    split
    · -- The place was empty, and an empty place has no references.
      rename_i hnew
      rw [hrefs, ← h ref, Store.symbol_of_size_le _ (Nat.le_of_eq hnew.symm)]
      rfl
    · exact h ref
  binding h _ _ := h
  signing {s} h ref signature := by
    intro r
    refine Eq.trans (s.store.refs_modifySymbol ref r ?_) (h r)
    intro x
    rfl
  initing {s} h ref := by
    intro r
    refine Eq.trans (s.store.refs_modifySymbol ref r ?_) (h r)
    intro x
    rfl
  counting hc := hc.elim
  withScope h _ _ _ := h
  withSymbol h _ _ _ := h
  withSignature h _ _ _ := h
  withType h _ _ _ _ := h

theorem within_uncounted {event : Event} (hp : o.Permits event) (hr : event.refers? = none) :
    event.Within uncounted := by
  cases event with
  -- uses of names are the only events that `uncounted` leaves out
  | enterAssign a | enterVariable e name | enterCall e callee args => cases hr
  | enterProgram p => trivial
  | enterBlock block => trivial
  | enterDecl d => trivial
  | enterParam f d => trivial
  | enterFunction f => exact ⟨trivial, trivial⟩
  | exitParams f => exact ⟨trivial, trivial⟩
  | exitData d => exact ⟨trivial, fun _ _ => trivial⟩
  | exitAssign a => exact ⟨trivial, trivial⟩
  | exitReturn keyword value => exact fun _ _ => trivial
  | exitLiteral e token => trivial
  | exitVariable e name => exact ⟨trivial, trivial, hp.1.2⟩
  | exitCall e callee args => exact ⟨trivial, ⟨trivial, hp.1.2⟩, fun _ _ => trivial⟩
  | exitBinary e op token lhs rhs => exact ⟨⟨trivial, hp.1.2⟩, trivial, trivial⟩
  | exitUnary e op token operand => exact ⟨⟨trivial, hp.1.2⟩, trivial⟩
  | exitCast e target operand => exact ⟨⟨trivial, hp.1.2⟩, trivial⟩
  | exitGrouped e inner => exact ⟨⟨trivial, hp.1.2⟩, trivial⟩
  | exitFormat e token args => exact ⟨trivial, hp.2⟩
  | _ => trivial

/-- What a use of a name stands for afterwards is referred to once more, and nothing else is. -/
theorem Describes.refs_step (h : o.Describes s) (hv : o.Valid) {event : Event}
    (hp : o.Permits event) {s' : Pass} (hrun : (Pass.visit event).run s = .ok () s')
    (ref : SymbolRef) :
    (s'.store.symbol ref).refs = (s.store.symbol ref).refs
      + .ofNat (event.refers?.toList.countP fun r =>
          ((o.step event).symbolOf r.node).map Entry.place = some ref) := by
  cases hr : event.refers? with
  | none =>
    have hstays := Stable.after ((stable_refs _).accord.visit (within_uncounted hp hr))
      (s := s) fun _ => rfl
    rw [hrun] at hstays
    exact (hstays ref).trans (UInt32.add_zero _).symm
  | some r =>
    -- the three uses of names all go through `resolveAt`
    have huse : ∃ s₁, (Pass.visit event).run s = .ok () s₁ ∧ (s₁.store.symbol ref).refs
        = (s.store.symbol ref).refs
          + if (resolution o.scope r.name r.use).toOption.map Entry.place = some ref then 1 else 0 := by
      cases event with
      | enterAssign a | enterVariable e name | enterCall e callee args =>
        cases hr
        obtain ⟨s₁, hvisit, -, -, hrefs⟩ := h.resolveAt_run hv.names hp _ _ _
        exact ⟨s₁, hvisit, hrefs ref⟩
      | _ => cases hr
    obtain ⟨s₁, hvisit, hrefs⟩ := huse
    cases hvisit.symm.trans hrun
    rw [hrefs]
    simp only [Option.toList_some, List.countP_singleton, symbolOf, (of_refers (o := o) hr).1,
      Option.join_some, decide_eq_true_eq]
    split
    · rfl
    · rfl

/-- **Symbols are referred to by the uses that stand for them**, and by nothing else. -/
theorem Describes.refs_run (h : o.Describes s) (hv : o.Valid) {events : List Event}
    (ho : o.Orderly events) (hl : events.findSome? (Event.untyped? o.literals) = none) {s' : Pass}
    (hrun : (forM events Pass.visit : PassM PUnit).run s = .ok ⟨⟩ s') (ref : SymbolRef) :
    (s'.store.symbol ref).refs = (s.store.symbol ref).refs
      + .ofNat ((events.filterMap Event.refers?).countP fun r =>
          ((o.run events).symbolOf r.node).map Entry.place = some ref) := by
  induction events generalizing o s with
  | nil =>
    cases hrun
    exact (UInt32.add_zero _).symm
  | cons event rest ih =>
    rw [List.findSome?_cons] at hl
    cases hu : event.untyped? o.literals with
    | some token =>
      rw [hu] at hl
      cases hl
    | none =>
      rw [hu] at hl
      obtain ⟨s₁, hvisit, h₁, -⟩ := h.visit_run hv ho.1 hu
      rw [List.forM_cons, EStateM.run_bind, hvisit] at hrun
      rw [ih h₁ (hv.step ho.1) ho.2 (by simpa using hl) hrun, h.refs_step hv ho.1 hvisit ref,
        UInt32.add_assoc, ← UInt32.ofNat_add,
        countP_cons_run ho.2 (refusesUse_step ho.1).2 fun x => x.map Entry.place = some ref]

/-! ## Bound symbols -/

namespace Charts

variable {p : Program} (h : o.Charts p s)

include h

/-- What is bound in some scope is a declaration that stands for itself. -/
theorem mem_symbolsIn {k : ScopeRef} {node : NodeId} {around : Option NodeId}
    (hk : o.regions[k]? = some (node, around)) {place : SymbolRef} :
    place ∈ s.store.symbolsIn k ↔ ∃ name, o.Binds node name place := by
  unfold Store.symbolsIn
  rw [List.mem_map]
  constructor
  · rintro ⟨⟨name, ref⟩, hm, rfl⟩
    exact ⟨name, (h.describes.bindings hk name ref).mp ((h.tidy k).mem_iff.mp hm)⟩
  · rintro ⟨name, hb⟩
    exact ⟨(name, place), (h.tidy k).mem_iff.mpr ((h.describes.bindings hk name place).mpr hb), rfl⟩

/-- No scope binds a symbol twice: that would take two names. -/
theorem nodup_symbolsIn {k : ScopeRef} {node : NodeId} {around : Option NodeId}
    (hk : o.regions[k]? = some (node, around)) : (s.store.symbolsIn k).Nodup := by
  unfold Store.symbolsIn
  refine List.pairwise_map.mpr ((h.tidy k).imp_of_mem ?_)
  rintro ⟨name, place⟩ ⟨other, place'⟩ hm hm' hlt heq
  cases heq
  obtain ⟨d, hd, rfl, -⟩ := (h.describes.bindings hk _ _).mp ((h.tidy k).mem_iff.mp hm)
  obtain ⟨d', hd', rfl, -⟩ := (h.describes.bindings hk _ _).mp ((h.tidy k).mem_iff.mp hm')
  cases hd.symm.trans hd'
  exact String.lt_irrefl _ hlt

/-- The symbols that are bound anywhere. -/
theorem mem_bound {place : SymbolRef} :
    place ∈ (List.range s.store.scopes.size).flatMap s.store.symbolsIn ↔
      ∃ node d, o.declared[place]? = some (node, d) ∧ o.symbolOf d.id = some ⟨place, d⟩ := by
  rw [List.mem_flatMap]
  constructor
  · rintro ⟨k, hk, hm⟩
    rw [List.mem_range, h.describes.size] at hk
    obtain ⟨name, d, hd, -, hsymbol⟩ :=
      (h.mem_symbolsIn (List.getElem?_eq_getElem hk)).mp hm
    exact ⟨_, d, hd, hsymbol⟩
  · rintro ⟨node, d, hd, hsymbol⟩
    obtain ⟨around, hr⟩ := h.names.home (List.mem_of_getElem? hd)
    obtain ⟨k, -, hk⟩ := h.describes.region_of_mem hr
    exact ⟨k, List.mem_range.mpr (h.describes.lt_size hk),
      (h.mem_symbolsIn hk).mpr ⟨d.name, d, hd, rfl, hsymbol⟩⟩

/-- No symbol is bound twice. -/
theorem nodup_bound : ((List.range s.store.scopes.size).flatMap s.store.symbolsIn).Nodup := by
  have hregion : ∀ k ∈ List.range s.store.scopes.size, ∃ region, o.regions[k]? = some region := by
    intro k hk
    rw [List.mem_range, h.describes.size] at hk
    exact ⟨_, List.getElem?_eq_getElem hk⟩
  refine List.pairwise_flatMap.mpr ⟨?_, List.pairwise_lt_range.imp_of_mem ?_⟩
  · intro k hk
    obtain ⟨⟨node, around⟩, hr⟩ := hregion k hk
    exact h.nodup_symbolsIn hr
  · rintro k j hk hj hlt place hm _ hm' rfl
    obtain ⟨⟨node, around⟩, hr⟩ := hregion k hk
    obtain ⟨⟨node', around'⟩, hr'⟩ := hregion j hj
    obtain ⟨-, d, hd, -⟩ := (h.mem_symbolsIn hr).mp hm
    obtain ⟨-, d', hd', -⟩ := (h.mem_symbolsIn hr').mp hm'
    -- A declaration has one home, and a home is recorded with one scope.
    cases hd.symm.trans hd'
    have hsame := (h.describes.recorded.mpr ⟨_, hr⟩).symm.trans (h.describes.recorded.mpr ⟨_, hr'⟩)
    exact Nat.ne_of_lt hlt (Option.some.inj hsame)

/-- **The bound symbols are those in the cells of declarations**, each in one cell. -/
theorem perm_bound :
    ((List.range s.store.scopes.size).flatMap s.store.symbolsIn).Perm
      (o.declared.filterMap fun x => (o.symbolOf x.2.id).map Entry.place) := by
  refine (List.perm_ext_iff_of_nodup h.nodup_bound ?_).mpr ?_
  · refine List.pairwise_filterMap.mpr (List.pairwise_iff_getElem.mpr ?_)
    intro i j hi hj hlt place hplace place' hplace' heq
    subst heq
    have hd : o.declared[i]? = some (o.declared[i].1, o.declared[i].2) := List.getElem?_eq_getElem hi
    have hd' : o.declared[j]? = some (o.declared[j].1, o.declared[j].2) := List.getElem?_eq_getElem hj
    have hij := (h.names.own_of_place hd hplace).1.trans (h.names.own_of_place hd' hplace').1.symm
    exact Nat.ne_of_lt hlt hij
  · intro place
    rw [h.mem_bound, List.mem_filterMap]
    constructor
    · rintro ⟨node, d, hd, hsymbol⟩
      exact ⟨(node, d), List.mem_of_getElem? hd, by rw [hsymbol]; rfl⟩
    · rintro ⟨⟨node, d⟩, hm, hslot⟩
      obtain ⟨k, hk⟩ := List.mem_iff_getElem?.mp hm
      obtain ⟨rfl, hself⟩ := h.names.own_of_place hk hslot
      exact ⟨node, d, hk, hself⟩

/-- The cell of a use holds nothing or a bound symbol. -/
theorem slot_bound {n : NodeId} {place : SymbolRef}
    (hslot : (o.symbolOf n).map Entry.place = some place) :
    place ∈ (List.range s.store.scopes.size).flatMap s.store.symbolsIn := by
  obtain ⟨entry, hentry, rfl⟩ := Option.map_eq_some_iff.mp hslot
  obtain ⟨⟨node, hd⟩, hself⟩ := h.names.slot hentry
  exact h.mem_bound.mpr ⟨node, entry.definition, hd, hself⟩

end Charts

/-- Where declarations are permitted a scope is open, so none is missing from the list. -/
theorem map_snd_declarationsIn {events : List Event} (ho : o.Orderly events) :
    (declarationsIn (o.frames.map Frame.node) events).map Prod.snd
      = events.filterMap Event.declares? := by
  induction events generalizing o with
  | nil => rfl
  | cons event rest ih =>
    rw [declarationsIn, List.map_append, ← nodes_step, ih ho.2]
    cases hd : event.declares? with
    | none =>
      rw [List.filterMap_cons_none hd, Event.declaration?, hd]
      rfl
    | some d =>
      obtain ⟨⟨hframes, -⟩, -⟩ := of_declares hd ho.1
      rw [List.filterMap_cons_some hd, Event.declaration?, hd]
      cases hf : o.frames with
      | nil => exact absurd hf hframes
      | cons frame outer => rfl

end Outline

/-! ## Sums -/

theorem length_eq_isSome_add_isNone {α β : Type} (f : α → Option β) (xs : List α) :
    xs.length = xs.countP (fun x => (f x).isSome) + xs.countP fun x => (f x).isNone := by
  refine (List.length_eq_countP_add_countP fun x => (f x).isSome).trans ?_
  refine congrArg (_ + ·) (List.countP_congr fun x _ => ?_)
  simp

/-- Counting what symbols have counts each use once, if no symbol is counted twice. -/
theorem Store.totalRefs_eq {store : Store} {slot : Reference → Option SymbolRef}
    {references : List Reference} {bound : List SymbolRef} (hn : bound.Nodup)
    (hrefs : ∀ ref ∈ bound,
      (store.symbol ref).refs.toNat = references.countP fun r => slot r = some ref) :
    store.totalRefs bound = references.countP fun r => ∃ ref ∈ bound, slot r = some ref := by
  induction bound with
  | nil => simp [totalRefs]
  | cons first rest ih =>
    obtain ⟨hfirst, hrest⟩ := List.nodup_cons.mp hn
    rw [totalRefs, hrefs first List.mem_cons_self,
      ih hrest fun ref hm => hrefs ref (List.mem_cons_of_mem _ hm)]
    clear ih hrefs
    induction references with
    | nil => rfl
    | cons r references ih =>
      simp only [List.countP_cons, List.mem_cons, exists_eq_or_imp, decide_eq_true_eq] at ih ⊢
      by_cases hr : slot r = some first
      · have hnot : ¬ ∃ ref ∈ rest, slot r = some ref := by
          rintro ⟨ref, hm, hs⟩
          cases hr.symm.trans hs
          exact hfirst hm
        rw [if_pos hr, if_neg hnot, if_pos (Or.inl hr)]
        omega
      · simp only [hr, if_false, false_or]
        omega

/-! ## The account of an analysis -/

/-- The references of a symbol after a check from nothing. -/
theorem Pass.refs_check {p : Program} {literals : Cells Ty}
    (ho : (Outline.start literals).Orderly p.events) (hl : p.untyped? literals = none) {s : Pass}
    (h : (Pass.check p).run (Pass.start literals) = .ok () s) (ref : SymbolRef) :
    (s.store.symbol ref).refs = .ofNat (p.references.countP fun r =>
      (((Outline.start literals).run p.events).symbolOf r.node).map Entry.place = some ref) := by
  obtain ⟨log, hrun⟩ := Pass.run_of_check h
  have hstart := (Outline.Describes.start literals).logged log
  have hrefs := hstart.refs_run (Outline.Valid.start literals) ho hl hrun ref
  -- Nothing has references before anything is there.
  exact hrefs.trans (UInt32.zero_add _)

theorem Store.boundSince_grown (store : Store) (p : Program) (made : Store) :
    (store.grown p made).boundSince store
      = ((List.range made.scopes.size).flatMap made.symbolsIn).map (store.symbols.size + ·) := by
  rw [boundSince, size_grown, Nat.add_sub_cancel_left, List.map_flatMap]
  congr 1
  funext k
  simp only [symbolsIn, scope_grown, Scope.moved, Bindings.moved, List.map_map]
  rfl

namespace Outline.Charts

variable {o : Outline} {p : Program} {s : Pass} (h : o.Charts p s)

include h

/-- The cell of a use holds the symbol that the use stands for. -/
theorem reference_grown (store : Store) {r : Reference} (hr : r ∈ p.references) :
    (store.grown p s.store).notes.symbols.get r.node
      = ((o.symbolOf r.node).map Entry.place).map (store.symbols.size + ·) := by
  obtain ⟨event, hm, hrefers⟩ := List.mem_filterMap.mp hr
  exact h.slot_grown store hm (Event.mentions?_of_refers hrefers)

theorem nodup_boundSince (store : Store) :
    ((store.grown p s.store).boundSince store).Nodup := by
  rw [Store.boundSince_grown]
  refine List.pairwise_map.mpr (h.nodup_bound.imp ?_)
  intro place place' hne heq
  exact hne (Nat.add_left_cancel heq)

/-- Where the cell of a use is filled, it holds a bound symbol. -/
theorem mem_boundSince (store : Store) {r : Reference} (hr : r ∈ p.references) {ref : SymbolRef}
    (hslot : (store.grown p s.store).notes.symbols.get r.node = some ref) :
    ref ∈ (store.grown p s.store).boundSince store := by
  rw [h.reference_grown store hr] at hslot
  obtain ⟨place, hplace, rfl⟩ := Option.map_eq_some_iff.mp hslot
  rw [Store.boundSince_grown]
  exact List.mem_map_of_mem (h.slot_bound hplace)

/-- Symbols are bound for as many declarations as have filled cells. -/
theorem length_boundSince (store : Store) (hp : p.declarations = o.declared.map Prod.snd) :
    ((store.grown p s.store).boundSince store).length
      = p.declarations.countP fun d => (o.symbolOf d.id).isSome := by
  rw [Store.boundSince_grown, List.length_map, h.perm_bound.length_eq,
    List.length_filterMap_eq_countP, hp, List.countP_map]
  refine List.countP_congr fun x _ => ?_
  simp

variable (hrefs : ∀ place, (s.store.symbol place).refs
  = .ofNat (p.references.countP fun r => (o.symbolOf r.node).map Entry.place = some place))

include hrefs

theorem refs_boundSince (store : Store) :
    ∀ ref ∈ (store.grown p s.store).boundSince store, ((store.grown p s.store).symbol ref).refs
      = .ofNat (p.references.countP fun r =>
          (store.grown p s.store).notes.symbols.get r.node = some ref) := by
  intro ref hm
  rw [Store.boundSince_grown] at hm
  obtain ⟨place, -, rfl⟩ := List.mem_map.mp hm
  rw [Store.symbol_grown, hrefs]
  refine congrArg UInt32.ofNat (List.countP_congr fun r hr => ?_)
  rw [h.reference_grown store hr]
  cases (o.symbolOf r.node).map Entry.place with
  | none => simp
  | some other => simp

/-- With fewer uses than there are words no count begins again. -/
theorem toNat_refs_boundSince (store : Store) (hfew : p.references.length < UInt32.size) :
    ∀ ref ∈ (store.grown p s.store).boundSince store, ((store.grown p s.store).symbol ref).refs.toNat
      = p.references.countP fun r =>
          (store.grown p s.store).notes.symbols.get r.node = some ref := by
  intro ref hm
  rw [h.refs_boundSince hrefs store ref hm]
  exact UInt32.toNat_ofNat_of_lt (Nat.lt_of_le_of_lt List.countP_le_length hfew)

/-- Symbols are referred to by as many uses as have filled cells. -/
theorem totalRefs_boundSince (store : Store) (hfew : p.references.length < UInt32.size) :
    (store.grown p s.store).totalRefs ((store.grown p s.store).boundSince store)
      = p.references.countP fun r => (o.symbolOf r.node).isSome := by
  rw [Store.totalRefs_eq (h.nodup_boundSince store) (h.toNat_refs_boundSince hrefs store hfew)]
  refine List.countP_congr fun r hr => ?_
  have hcell := h.reference_grown store hr
  rw [decide_eq_true_eq]
  constructor
  · rintro ⟨ref, -, hslot⟩
    rw [hcell] at hslot
    obtain ⟨place, hplace, -⟩ := Option.map_eq_some_iff.mp hslot
    obtain ⟨entry, hentry, -⟩ := Option.map_eq_some_iff.mp hplace
    rw [hentry]
    rfl
  · intro hsome
    obtain ⟨entry, hentry⟩ := Option.isSome_iff_exists.mp hsome
    rw [hentry] at hcell
    exact ⟨_, h.mem_boundSince store hr hcell, hcell⟩

end Outline.Charts

/-- **No name is lost or counted twice.** In a program in which no node occurs twice, the
declarations are as many as the symbols bound in the scopes of the analysis and the reports of names
that were taken. No symbol is bound twice, and each counts as often as there are uses that have it in
their cells, in words. As long as there are fewer uses than words these are the very numbers, and all uses
are as many as the references of these symbols and the reports of uses that mean nothing or nothing of
the right class. -/
theorem analyze_accounts_for_names {store after : Store} {p : Program} {a : Analysis}
    (hn : p.nodes.Nodup) (h : store.analyze p = (.ok a, after)) :
    p.declarations.length
      = (after.boundSince store).length + a.diagnostics.countP Diagnostic.refusesName ∧
    (after.boundSince store).Nodup ∧
    (∀ ref ∈ after.boundSince store, (after.symbol ref).refs
      = .ofNat (p.references.countP fun r => after.notes.symbols.get r.node = some ref)) ∧
    (p.references.length < UInt32.size →
      p.references.length
        = after.totalRefs (after.boundSince store) + a.diagnostics.countP Diagnostic.refusesUse ∧
      ∀ ref ∈ after.boundSince store, (after.symbol ref).refs.toNat
        = p.references.countP fun r => after.notes.symbols.get r.node = some ref) := by
  obtain ⟨horderly, hl, hds, hjournal, -⟩ := Store.analyze_outcome hn h
  obtain ⟨s, hcharts, -, hrun, -, rfl⟩ := Store.analyze_charts hn h
  have hrefs := Pass.refs_check horderly hl hrun
  rw [hds, hjournal]
  refine ⟨?_, hcharts.nodup_boundSince store, hcharts.refs_boundSince hrefs store,
    fun hfew => ⟨?_, hcharts.toNat_refs_boundSince hrefs store hfew⟩⟩
  · have hdeclared : p.declarations
        = ((Outline.start store.notes.literals).run p.events).declared.map Prod.snd := by
      rw [hcharts.declared]
      exact (Outline.map_snd_declarationsIn horderly).symm
    rw [hcharts.length_boundSince store hdeclared,
      Outline.countP_journal Outline.refusesName_step horderly]
    exact length_eq_isSome_add_isNone _ p.declarations
  · rw [hcharts.totalRefs_boundSince hrefs store hfew,
      Outline.countP_journal Outline.refusesUse_step horderly]
    exact length_eq_isSome_add_isNone _ p.references

/-- A block uses a name, declares it again and stores a value under a name that nobody declared. -/
def tallying : Program :=
  let at' (line column : UInt32) : Position := ⟨"tally.dk", line, column⟩
  let int (line column : UInt32) : Token := ⟨.integerType, "int", at' line column⟩
  { id := 0
    file := "tally.dk"
    items :=
      [.data { decl := ⟨1, false, int 1 1, ⟨"n", at' 1 5⟩⟩, init := none },
      .start
        { keyword := ⟨.startWord, "start", at' 2 1⟩
          body := .mk 2 ⟨.leftBrace, "\x7b", at' 2 7⟩
            [.assign { id := 3, target := ⟨"n", at' 3 3⟩, value := .var 4 104 ⟨"n", at' 3 7⟩ },
            .data { decl := ⟨5, false, int 4 3, ⟨"n", at' 4 7⟩⟩, init := none },
            .assign { id := 6, target := ⟨"m", at' 5 3⟩, value := .var 7 107 ⟨"n", at' 5 7⟩ }] }] }

/-- Of two declarations one is bound and one refused. Of four uses three are references of the symbol
that is bound, and one is refused. -/
theorem tallying_accounted :
    tallying.nodes.Nodup ∧ ∃ a after, ({} : Store).analyze tallying = (.ok a, after) ∧
      after.boundSince {} = [0] ∧ a.diagnostics.countP Diagnostic.refusesName = 1 ∧
      (after.symbol 0).refs = 3 ∧ a.diagnostics.countP Diagnostic.refusesUse = 1 := by
  have hn : tallying.nodes.Nodup := by decide
  have hl : tallying.untyped? ({} : Store).notes.literals = none := rfl
  have hfirst : (({} : Store).analyze tallying).2.boundSince {} = [0] := by decide +kernel
  have hthree : ((({} : Store).analyze tallying).2.symbol 0).refs = 3 := by decide +kernel
  obtain ⟨s, -, -, hok⟩ := Store.analyze_ok hn (by decide) hl
  obtain ⟨hdeclared, -, -, hfew⟩ := analyze_accounts_for_names hn hok
  obtain ⟨hused, -⟩ := hfew (by decide)
  rw [hok] at hfirst hthree
  rw [hfirst] at hdeclared hused
  rw [Store.totalRefs, Store.totalRefs, hthree] at hused
  exact ⟨hn, _, _, hok, hfirst, (Nat.add_left_cancel hdeclared).symm, hthree,
    (Nat.add_left_cancel hused).symm⟩

end Semant
