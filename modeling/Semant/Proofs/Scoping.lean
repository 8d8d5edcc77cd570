import Semant.Proofs.Outline.Outcome

/-!
# Names are resolved by scope

Which declaration a name means can be said without symbols or tables. A declaration belongs to the
innermost scope that is open where it is made, and can be seen from then on as long as that scope
is open (`seen`). Of all declarations of a name that can be seen somewhere, the first one made is
the one that is meant; all others were refused when they were made.

The check agrees (`analyze_resolves_by_scope`), with any number of errors in the program. It does
not keep the declarations that it refuses, so what has to be proved is that dropping them changes
nothing: the first of those that can be seen was never refused.
-/

set_option autoImplicit false

namespace Semant

/-! ## What can be seen -/

/-- The scopes that are open after some events, innermost first. A scope is named by its node. -/
def openScopes (events : List Event) : List NodeId := events.foldl Event.scopes []

/-- The declaration that an event makes, with the innermost of the open scopes. -/
def Event.declaration? (outer : List NodeId) (event : Event) : Option (NodeId × Definition) :=
  event.declares?.bind fun d => outer.head?.map fun node => (node, d)

/-- The declarations that some events make, each with its scope. The scopes in `outer` are open
before. -/
def declarationsIn (outer : List NodeId) : List Event → List (NodeId × Definition)
  | [] => []
  | event :: rest => (event.declaration? outer).toList ++ declarationsIn (event.scopes outer) rest

/-- The declarations of a name that can be seen after some events, in the order in which they were
made: those of which the scope is still open. -/
def seen (events : List Event) (name : String) : List (NodeId × Definition) :=
  (declarationsIn [] events).filter fun x => x.1 ∈ openScopes events ∧ x.2.name = name

/-- The report of a declaration, given the declarations of its name that can be seen. -/
def Definition.clash (d : Definition) : List (NodeId × Definition) → Diagnostics
  | [] => []
  | (_, old) :: _ =>
    [⟨.error, d.identifier.position,
      .semantic (.duplicateSymbol d.name old.cls old.identifier.position)⟩]

/-- The report of a reference, given the declarations of its name that can be seen. -/
def Reference.misuse (r : Reference) : List (NodeId × Definition) → Diagnostics
  | [] => [⟨.error, r.name.position, .semantic (.undefinedSymbol r.name.name)⟩]
  | (_, d) :: _ =>
    if d.cls = r.use.expects then []
    else [⟨.error, r.name.position, .semantic (r.use.mismatch r.name.name)⟩]

namespace Outline

/-! ## Outlines list what can be seen in order -/

theorem nodes_run (o : Outline) (events : List Event) :
    (o.run events).frames.map Frame.node = events.foldl Event.scopes (o.frames.map Frame.node) := by
  induction events generalizing o with
  | nil => rfl
  | cons event rest ih => rw [run_cons, ih, nodes_step, List.foldl_cons]

theorem declared_declare (o : Outline) (d : Definition) :
    (o.declare d).declared
      = o.declared ++ ((o.frames.map Frame.node).head?.map fun node => (node, d)).toList := by
  unfold Outline.declare Outline.write
  cases h : o.frames <;> simp

theorem declared_step (o : Outline) (event : Event) :
    (o.step event).declared
      = o.declared ++ (event.declaration? (o.frames.map Frame.node)).toList := by
  cases event with
  | enterDecl d => exact declared_declare o (.data d)
  | enterParam f d => exact declared_declare o (.data d)
  | enterFunction f => exact declared_declare o (.function f)
  | _ => exact (List.append_nil _).symm

theorem declared_run (o : Outline) (events : List Event) :
    (o.run events).declared = o.declared ++ declarationsIn (o.frames.map Frame.node) events := by
  induction events generalizing o with
  | nil => simp [declarationsIn]
  | cons event rest ih =>
    rw [run_cons, ih, declared_step, nodes_step, List.append_assoc, declarationsIn]

/-- The declarations that can be seen from the innermost of some scopes, each with its scope. -/
def surroundings : List Frame → List (NodeId × Entry)
  | [] => []
  | frame :: outer => surroundings outer ++ frame.entries.map (Prod.mk frame.node)

theorem scope_eq (o : Outline) : o.scope = (surroundings o.frames).map Prod.snd := by
  unfold scope
  induction o.frames with
  | nil => rfl
  | cons frame outer ih => simp [surroundings, visible, ih, Function.comp_def]

theorem mem_surroundings {frames : List Frame} {node : NodeId} {entry : Entry} :
    (node, entry) ∈ surroundings frames ↔
      ∃ frame ∈ frames, frame.node = node ∧ entry ∈ frame.entries := by
  induction frames with
  | nil => simp [surroundings]
  | cons frame outer ih =>
    simp only [surroundings, List.mem_append, ih, List.mem_map, Prod.mk.injEq, List.mem_cons,
      exists_eq_or_imp]
    rw [or_comm]
    refine or_congr_left ⟨?_, ?_⟩
    · rintro ⟨_, he, hn, rfl⟩
      exact ⟨hn, he⟩
    · rintro ⟨hn, he⟩
      exact ⟨_, he, hn, rfl⟩

/-- What can be seen, in the order of `surroundings`, is what was declared in scopes that are still
open, in the order of the declarations. -/
def InOrder (o : Outline) : Prop :=
  (surroundings o.frames).map (Prod.map id Entry.definition)
    = o.declared.filter fun x => x.1 ∈ o.frames.map Frame.node

theorem InOrder.opened {o : Outline} (h : o.InOrder) (hs : o.Scoped) {node : NodeId}
    (hn : o.Unopened node) : (o.opened node).InOrder := by
  have hother : ∀ x ∈ o.declared, x.1 ≠ node := by
    rintro ⟨home, d⟩ hm rfl
    obtain ⟨around, hr⟩ := hs.home hm
    exact hn around hr
  have hsame : o.declared.filter (fun x => x.1 ∈ node :: o.frames.map Frame.node)
      = o.declared.filter fun x => x.1 ∈ o.frames.map Frame.node :=
    List.filter_congr fun x hm => by simp [hother x hm]
  simp only [InOrder, Outline.opened, surroundings, List.map_nil, List.append_nil, List.map_cons]
  rw [hsame]
  exact h

theorem InOrder.declare {o : Outline} (h : o.InOrder) (d : Definition) (hf : o.frames ≠ []) :
    (o.declare d).InOrder := by
  cases hfr : o.frames with
  | nil => exact absurd hfr hf
  | cons frame outer =>
    simp only [InOrder, hfr, surroundings, List.map_append] at h
    simp only [InOrder, Outline.declare, write_eq _ _ hfr, surroundings, List.map_append,
      List.filter_append, ← List.append_assoc, List.map_cons]
    rw [h]
    simp [entryOf]

/-- When a scope is left, its own declarations are dropped and no others. -/
theorem InOrder.closed {o : Outline} (h : o.InOrder) (hd : (o.frames.map Frame.node).Nodup) :
    o.closed.InOrder := by
  cases hfr : o.frames with
  | nil => simpa [InOrder, Outline.closed, hfr] using h
  | cons frame outer =>
    rw [hfr] at hd
    have hnot : frame.node ∉ outer.map Frame.node := (List.nodup_cons.mp hd).1
    simp only [InOrder, hfr, surroundings, List.map_append] at h
    -- Keep only what lies in scopes that stay open: all of the outer part, and nothing of the scope
    -- that is left, since no scope is open twice.
    have hkept := congrArg (List.filter fun x => x.1 ∈ outer.map Frame.node) h
    have houter : ((surroundings outer).map (Prod.map id Entry.definition)).filter
        (fun x => x.1 ∈ outer.map Frame.node)
        = (surroundings outer).map (Prod.map id Entry.definition) := by
      refine List.filter_eq_self.mpr fun x hm => ?_
      obtain ⟨⟨node, entry⟩, hx, rfl⟩ := List.mem_map.mp hm
      obtain ⟨fr, hfr, rfl, -⟩ := mem_surroundings.mp hx
      simpa using ⟨fr, hfr, rfl⟩
    have hinner : ((frame.entries.map (Prod.mk frame.node)).map (Prod.map id Entry.definition)).filter
        (fun x => x.1 ∈ outer.map Frame.node) = [] := by
      refine List.filter_eq_nil_iff.mpr fun x hm => ?_
      obtain ⟨y, hy, rfl⟩ := List.mem_map.mp hm
      obtain ⟨entry, -, rfl⟩ := List.mem_map.mp hy
      simpa using hnot
    rw [List.filter_append, houter, hinner, List.append_nil, List.filter_filter] at hkept
    simp only [InOrder, Outline.closed, hfr, List.tail_cons]
    rw [hkept]
    refine List.filter_congr fun x _ => ?_
    simp only [List.map_cons, List.mem_cons]
    grind

theorem InOrder.step {o : Outline} (h : o.InOrder) (hs : o.Scoped) {event : Event}
    (hp : o.Permits event) : (o.step event).InOrder := by
  cases event with
  | enterProgram p => exact h.opened hs (unopened_of_nil hp.1)
  | enterBlock b => exact h.opened hs hp.2
  | exitProgram p | exitBlock b => exact h.closed hs.distinct
  | exitFunction f => exact h.closed hs.distinct
  | enterDecl d => exact h.declare (.data d) hp.1
  | enterParam f d => exact h.declare (.data d) hp.1.1
  | enterFunction f =>
    have hnew : (o.declare (.function f)).Unopened f.id := by
      intro around
      rw [(declare_frame o (.function f)).1]
      exact hp.2.1 around
    exact (h.declare (.function f) hp.1.1).opened (hs.declare hp.1) hnew
  | _ => exact h

theorem InOrder.run {o : Outline} (h : o.InOrder) (hv : o.Valid) {events : List Event}
    (ho : o.Orderly events) : (o.run events).InOrder := by
  induction events generalizing o with
  | nil => exact h
  | cons event rest ih => exact ih (h.step hv.names ho.1) (hv.step ho.1) ho.2

/-- The outline after some events of a program. -/
structure Follows (o : Outline) (before : List Event) : Prop where
  order : o.InOrder
  names : o.Scoped
  declared : o.declared = declarationsIn [] before
  nodes : o.frames.map Frame.node = openScopes before

theorem follows_run {literals : Cells Ty} {before : List Event}
    (ho : (Outline.start literals).Orderly before) :
    ((Outline.start literals).run before).Follows before where
  order := (show (Outline.start literals).InOrder from rfl).run (Valid.start literals) ho
  names := ((Valid.start literals).run ho).names
  declared := declared_run _ before
  nodes := nodes_run _ before

section Follows

variable {o : Outline} {before : List Event} (h : o.Follows before)

include h

theorem Follows.seen_eq (name : String) :
    seen before name
      = ((surroundings o.frames).filter fun x => x.2.definition.name = name).map
          (Prod.map id Entry.definition) := by
  have hopen : seen before name
      = (o.declared.filter fun x => x.1 ∈ o.frames.map Frame.node).filter
          fun x => x.2.name = name := by
    rw [seen, ← h.declared, ← h.nodes, List.filter_filter]
    refine List.filter_congr fun x _ => ?_
    grind
  rw [hopen, ← h.order, List.filter_map]
  rfl

/-- The first declaration that can be seen is the one that is found. -/
theorem Follows.head?_seen {name : String} {node : NodeId} {d : Definition} :
    (seen before name).head? = some (node, d) ↔
      ∃ entry, lookup o.scope name = some entry ∧ entry.definition = d ∧
        o.declared[entry.place]? = some (node, d) := by
  have hhead : (seen before name).head? = ((surroundings o.frames).find?
      fun x => x.2.definition.name = name).map (Prod.map id Entry.definition) := by
    rw [h.seen_eq, List.head?_map, List.head?_filter]
  have hlookup : lookup o.scope name
      = ((surroundings o.frames).find? fun x => x.2.definition.name = name).map Prod.snd := by
    rw [scope_eq, lookup, List.find?_map]
    rfl
  rw [hhead, hlookup]
  cases hf : (surroundings o.frames).find? fun x => x.2.definition.name = name with
  | none => simp
  | some found =>
    obtain ⟨home, entry⟩ := found
    obtain ⟨frame, hm, rfl, he⟩ := mem_surroundings.mp (List.mem_of_find?_eq_some hf)
    have hplace := (h.names.entries frame hm entry).mp he
    constructor
    · rintro ⟨⟩
      exact ⟨entry, rfl, rfl, hplace⟩
    · rintro ⟨_, ⟨⟩, rfl, hdecl⟩
      cases hplace.symm.trans hdecl
      rfl

theorem Follows.seen_nil {name : String} : seen before name = [] ↔ lookup o.scope name = none := by
  rw [h.seen_eq, scope_eq, lookup, List.find?_map]
  simp [List.find?_eq_none]

theorem Follows.mem_seen {name : String} {node : NodeId} {d : Definition}
    (hm : (node, d) ∈ seen before name) :
    ∃ entry ∈ o.scope, entry.definition = d ∧ o.declared[entry.place]? = some (node, d) ∧
      ∃ around, (node, around) ∈ o.regions := by
  rw [h.seen_eq] at hm
  obtain ⟨⟨home, entry⟩, hx, he⟩ := List.mem_map.mp hm
  obtain ⟨frame, hf, rfl, hentry⟩ := mem_surroundings.mp (List.mem_filter.mp hx).1
  cases he
  refine ⟨entry, mem_visible.mpr ⟨frame, hf, hentry⟩, rfl, (h.names.entries frame hf entry).mp hentry,
    h.names.linked.node_mem frame hf⟩

/-- A use resolves if the first declaration that can be seen is of the right class. -/
theorem Follows.resolves_iff {name : Identifier} {use : Use} :
    (∃ entry, resolution o.scope name use = .ok entry) ↔
      ∃ x, (seen before name.name).head? = some x ∧ x.2.cls = use.expects := by
  constructor
  · rintro ⟨entry, hr⟩
    obtain ⟨hl, hc⟩ := resolution_ok.mp hr
    obtain ⟨node, hdecl⟩ := h.names.visible_declared (lookup_mem hl)
    exact ⟨(node, entry.definition), h.head?_seen.mpr ⟨entry, hl, rfl, hdecl⟩, hc⟩
  · rintro ⟨⟨node, d⟩, hx, hc⟩
    obtain ⟨entry, hl, rfl, -⟩ := h.head?_seen.mp hx
    exact ⟨entry, resolution_ok.mpr ⟨hl, hc⟩⟩

/-! ## What the check reports -/

theorem Follows.duplicate_eq (d : Definition) :
    o.duplicate d = d.clash (seen before d.name) := by
  cases hs : seen before d.name with
  | nil => simp [duplicate, h.seen_nil.mp hs, Definition.clash]
  | cons first rest =>
    obtain ⟨node, old⟩ := first
    obtain ⟨entry, hl, rfl, -⟩ := h.head?_seen.mp (by rw [hs]; rfl)
    simp [duplicate, hl, Definition.clash]

theorem Follows.unresolved_eq (r : Reference) :
    o.unresolved r.name r.use = r.misuse (seen before r.name.name) := by
  cases hs : seen before r.name.name with
  | nil => simp [unresolved, resolution, h.seen_nil.mp hs, Reference.misuse]
  | cons first rest =>
    obtain ⟨node, old⟩ := first
    obtain ⟨entry, hl, rfl, -⟩ := h.head?_seen.mp (by rw [hs]; rfl)
    simp only [unresolved, resolution, hl, Reference.misuse]
    by_cases hc : entry.definition.cls = r.use.expects <;> simp [hc]

end Follows

/-- A declaration is the business of one event. -/
theorem of_declares {o : Outline} {event : Event} {d : Definition} (hd : event.declares? = some d)
    (hp : o.Permits event) :
    o.CanDeclare d ∧
      (o.step event).symbols.get d.id
        = some (if (lookup o.scope d.name).isSome then none else some (o.entryOf d)) ∧
      ∃ others, o.reports event = others ++ o.duplicate d ∧
        ∀ x ∈ others, x.finding = .semantic (.nothingData d.name) := by
  have hsymbols : ∀ (d : Definition), o.CanDeclare d → (o.declare d).symbols.get d.id
      = some (if (lookup o.scope d.name).isSome then none else some (o.entryOf d)) := by
    intro d hc
    rw [symbols_declare d hc.1, Cells.get_put, if_pos rfl]
  -- besides the clash only data of type `nothing` is reported
  have hvalueless : ∀ (d : Definition), ∀ x ∈ valueless d,
      x.finding = .semantic (.nothingData d.name) := by
    intro d x hx
    unfold valueless at hx
    split at hx
    · cases List.mem_singleton.mp hx
      rfl
    · cases hx
  cases event with
  | enterDecl decl =>
    cases hd
    exact ⟨hp, hsymbols _ hp, valueless (.data decl), by simp [reports, remarks, question], hvalueless _⟩
  | enterParam f decl =>
    cases hd
    exact ⟨hp.1, hsymbols _ hp.1, valueless (.data decl), by simp [reports, remarks, question], hvalueless _⟩
  | enterFunction f =>
    cases hd
    exact ⟨hp.1, hsymbols _ hp.1, [], by simp [reports, remarks, question], by simp⟩
  | _ => cases hd

theorem of_refers {o : Outline} {event : Event} {r : Reference} (hr : event.refers? = some r) :
    (o.step event).symbols.get r.node = some (resolution o.scope r.name r.use).toOption ∧
      o.reports event = o.unresolved r.name r.use := by
  cases event with
  | enterAssign a | enterVariable e name | enterCall e callee args =>
    cases hr
    exact ⟨by simp [step, refer, Cells.get_put], by simp [reports, remarks, question]⟩
  | _ => cases hr

/-! ## What is left in the store -/

theorem Scoped.symbolOf_run {o : Outline} (h : o.Scoped) {events : List Event}
    (ho : o.Orderly events) {place : SymbolRef} {node : NodeId} {d : Definition}
    (hd : o.declared[place]? = some (node, d)) :
    (o.run events).symbolOf d.id = o.symbolOf d.id := by
  rcases h.own hd with hs | hs <;> simp [symbolOf, symbols_run ho hs, hs]

theorem getElem?_declared_run {o : Outline} (events : List Event) {place : SymbolRef}
    {x : NodeId × Definition} (h : o.declared[place]? = some x) :
    (o.run events).declared[place]? = some x := by
  have hlt := (List.getElem?_eq_some_iff.mp h).1
  rw [declared_run, List.getElem?_append_left hlt, h]

section Outcome

variable {o : Outline} {before events : List Event} {p : Program} {store after : Store}
  (h : o.Follows before) (ho : o.Orderly events) (hout : (o.run events).Outcome p store after)

include h ho hout

/-- Of the declarations of a name that can be seen the first was bound, and no other. -/
theorem Follows.binds_iff {name : String} {x : NodeId × Definition} (hx : x ∈ seen before name) :
    (∃ ref, after.Binds x.1 x.2 ref) ↔ (seen before name).head? = some x := by
  obtain ⟨node, d⟩ := x
  obtain ⟨entry, hvis, rfl, hdecl, around, hr⟩ := h.mem_seen hx
  have hname : entry.definition.name = name := (of_decide_eq_true (List.mem_filter.mp hx).2).2
  have hkept := h.names.symbolOf_run ho hdecl
  simp only [hout.binds ((o.regions_run events).subset hr), hkept, h.head?_seen]
  constructor
  · rintro ⟨-, place, -, -, hsymbol⟩
    -- What a declaration stands for is itself, and then it is the oldest.
    have hself : o.symbolOf entry.definition.id = some entry := by
      rcases h.names.symbolOf_own hdecl with hs | hs
      · exact hs
      · simp [hs] at hsymbol
    exact ⟨entry, hname ▸ h.names.oldest hvis hself, rfl, hdecl⟩
  · rintro ⟨first, hl, heq, hfirst⟩
    refine ⟨_, first.place, rfl, getElem?_declared_run events hfirst, ?_⟩
    rw [← heq]
    exact h.names.bound hl

end Outcome

section Mention

variable {o : Outline} {before rest : List Event} {event : Event} {p : Program}
  {store after : Store} (h : o.Follows before) (ho : o.Orderly (event :: rest))
  (hout : (o.run (event :: rest)).Outcome p store after) (hm : event ∈ p.events)

include h ho hout hm

/-- A declaration is bound in its own scope if no other of its name can be seen. -/
theorem Follows.declaration {d : Definition} (hd : event.declares? = some d) :
    ∃ node outer, openScopes before = node :: outer ∧
      ((∃ ref, after.Binds node d ref) ↔ seen before d.name = []) ∧
      ∀ ref, after.notes.symbols.get d.id = some ref ↔ after.Binds node d ref := by
  obtain ⟨hcan, hslot, -⟩ := of_declares hd ho.1
  have hfinal := symbols_run ho.2 hslot
  have hcell := hout.symbols event hm d.id (by simp [Event.mentions?, hd])
  cases hfr : o.frames with
  | nil => exact absurd hfr hcan.1
  | cons frame outer =>
    have hnodes := h.nodes
    rw [hfr] at hnodes
    obtain ⟨around, hr⟩ := h.names.linked.node_mem frame (by rw [hfr]; exact List.mem_cons_self)
    refine ⟨frame.node, outer.map Frame.node, hnodes.symm, ?_⟩
    simp only [hcell, hout.binds ((o.regions_run (event :: rest)).subset hr), symbolOf, run_cons,
      hfinal, h.seen_nil]
    cases hl : lookup o.scope d.name with
    | some old => simp
    | none =>
      have hdecl : (o.step event).declared[o.declared.length]? = some (frame.node, d) := by
        simp [declared_step, Event.declaration?, hd, hfr]
      have hkept := getElem?_declared_run rest hdecl
      simp [entryOf, hkept]

/-- A reference has the symbol of the first declaration of its name that can be seen, if that is of
the right class. -/
theorem Follows.reference {r : Reference} (hr : event.refers? = some r) (ref : SymbolRef) :
    after.notes.symbols.get r.node = some ref ↔
      ∃ x, (seen before r.name.name).head? = some x ∧ x.2.cls = r.use.expects ∧
        after.Binds x.1 x.2 ref := by
  have hmention := Event.mentions?_of_refers hr
  have hfinal := symbols_run ho.2 (of_refers hr).1
  rw [hout.symbols event hm r.node hmention, symbolOf, run_cons, hfinal]
  cases hl : lookup o.scope r.name.name with
  | none =>
    have hnil := h.seen_nil.mpr hl
    simp [resolution, hl, hnil, Except.toOption]
  | some entry =>
    obtain ⟨node, hdecl⟩ := h.names.visible_declared (lookup_mem hl)
    have hhead := h.head?_seen.mpr ⟨entry, hl, rfl, hdecl⟩
    have hbinds : after.Binds node entry.definition ref ↔ store.symbols.size + entry.place = ref := by
      obtain ⟨-, -, -, -, around, hregion⟩ := h.mem_seen (List.mem_of_mem_head? hhead)
      have hkept := getElem?_declared_run (event :: rest) hdecl
      rw [hout.binds ((o.regions_run (event :: rest)).subset hregion),
        h.names.symbolOf_run ho hdecl, h.names.bound hl]
      constructor
      · rintro ⟨place, rfl, -, he⟩
        exact congrArg (fun x : Entry => store.symbols.size + x.place) (Option.some.inj he)
      · rintro rfl
        exact ⟨entry.place, rfl, hkept, rfl⟩
    rw [hhead]
    by_cases hc : entry.definition.cls = r.use.expects <;>
      simp [resolution, hl, hc, hbinds, Except.toOption]

end Mention

end Outline

open Outline

theorem getElem?_journal (o : Outline) (before : List Event) (event : Event) (rest : List Event) :
    (o.journal (before ++ event :: rest))[before.length]?
      = some (event, (o.run before).reports event) := by
  have hlength : ∀ (o : Outline) (events : List Event), (o.journal events).length = events.length := by
    intro o events
    induction events generalizing o with
    | nil => rfl
    | cons event rest ih => simp [journal, ih]
  rw [journal_append, List.getElem?_append_right (Nat.le_of_eq (hlength o before)), hlength]
  simp [journal]

/-- **Names are resolved by scope.** In a program in which no node occurs twice, look at any event of
its walk and at the declarations that can be seen there, in the order in which they were made.

* Of those with one name the first was bound in its scope, and no other.
* A declaration is bound in the innermost open scope if and only if its name cannot be seen.
  Otherwise its cell stays empty and it is reported, with the class and the place of the first
  declaration of the name. The only other report that a declaration can get is about data that is
  declared as `nothing`.
* A reference has the symbol of the first declaration of its name in its cell, if that is of the
  class that the use asks for. Otherwise it is reported, as the use of a name of the wrong class or,
  if the name cannot be seen, of an undefined name. -/
theorem analyze_resolves_by_scope {store after : Store} {p : Program} {a : Analysis}
    (hn : p.nodes.Nodup) (h : store.analyze p = (.ok a, after)) :
    a.diagnostics = (store.journal p).flatMap Prod.snd ∧
    ∀ before event rest, p.events = before ++ event :: rest →
      (∀ name, ∀ x ∈ seen before name,
        (∃ ref, after.Binds x.1 x.2 ref) ↔ (seen before name).head? = some x) ∧
      (∀ d, event.declares? = some d →
        (∃ node outer, openScopes before = node :: outer ∧
          ((∃ ref, after.Binds node d ref) ↔ seen before d.name = []) ∧
          ∀ ref, after.notes.symbols.get d.id = some ref ↔ after.Binds node d ref) ∧
        (after.notes.symbols.get d.id = none ↔ seen before d.name ≠ []) ∧
        ∃ others, (store.journal p)[before.length]?
            = some (event, others ++ d.clash (seen before d.name)) ∧
          ∀ x ∈ others, x.finding = .semantic (.nothingData d.name)) ∧
      ∀ r, event.refers? = some r →
        (∀ ref, after.notes.symbols.get r.node = some ref ↔
          ∃ x, (seen before r.name.name).head? = some x ∧ x.2.cls = r.use.expects ∧
            after.Binds x.1 x.2 ref) ∧
        (store.journal p)[before.length]?
          = some (event, r.misuse (seen before r.name.name)) := by
  obtain ⟨horderly, -, hds, hjournal, hout⟩ := Store.analyze_outcome hn h
  refine ⟨hds, fun before event rest hsplit => ?_⟩
  have hm : event ∈ p.events := by simp [hsplit]
  rw [hjournal, hsplit, getElem?_journal]
  rw [hsplit, orderly_append] at horderly
  rw [hsplit, run_append] at hout
  obtain ⟨hbefore, hrest⟩ := horderly
  -- at the event the outline shows what `seen` collects from the events before it
  have hfollows := follows_run hbefore
  refine ⟨fun name x hx => hfollows.binds_iff hrest hout hx, fun d hd => ?_, fun r hr => ⟨?_, ?_⟩⟩
  · obtain ⟨node, outer, hopen, hbound, hslot⟩ := hfollows.declaration hrest hout hm hd
    obtain ⟨-, -, others, hreports, hothers⟩ := of_declares hd hrest.1
    refine ⟨⟨node, outer, hopen, hbound, hslot⟩, ?_, others, ?_, hothers⟩
    · simp only [Ne, ← hbound, ← hslot, Option.eq_none_iff_forall_ne_some, not_exists]
    · rw [hreports, hfollows.duplicate_eq]
  · exact hfollows.reference hrest hout hm hr
  · rw [(of_refers hr).2, hfollows.unresolved_eq]

/-- A block declares a name again that it can see, calls it and stores a value under a name that
nobody declared. -/
def shadowing : Program :=
  let at' (line column : UInt32) : Position := ⟨"shadow.dk", line, column⟩
  { id := 0
    file := "shadow.dk"
    items :=
      [.data
        { decl := ⟨1, false, ⟨.integerType, "int", at' 1 1⟩, ⟨"n", at' 1 5⟩⟩
          init := some (.literal 2 ⟨.integerLiteral, "1", at' 1 9⟩ (some .int)) },
      .start
        { keyword := ⟨.startWord, "start", at' 2 1⟩
          body := .mk 3 ⟨.leftBrace, "\x7b", at' 2 7⟩
            [.data
              { decl := ⟨4, false, ⟨.floatType, "float", at' 3 3⟩, ⟨"n", at' 3 9⟩⟩
                init := none },
            .expr (.call 5 105 ⟨"n", at' 4 3⟩ []),
            .assign
              { id := 6
                target := ⟨"m", at' 5 3⟩
                value := .literal 7 ⟨.integerLiteral, "3", at' 5 7⟩ (some .int) }] }] }

/-- The second declaration is refused, and the call is about the first. -/
theorem shadowing_refused :
    shadowing.nodes.Nodup ∧ ∃ a after, ({} : Store).analyze shadowing = (.ok a, after) ∧
      after.notes.symbols.get 4 = none ∧ after.notes.symbols.get 105 = none ∧
      ∃ call, (({} : Store).journal shadowing)[13]?
        = some (call, [⟨.error, ⟨"shadow.dk", 4, 3⟩, .semantic (.notAFunction "n")⟩]) := by
  have hn : shadowing.nodes.Nodup := by decide
  have hl : shadowing.untyped? ({} : Store).notes.literals = none := rfl
  obtain ⟨s, -, -, hok⟩ := Store.analyze_ok hn (by decide) hl
  have hresolve := (analyze_resolves_by_scope hn hok).2
  have hdecl := (hresolve (shadowing.events.take 10) _ (shadowing.events.drop 11) rfl).2.1 _ rfl
  have hcall := (hresolve (shadowing.events.take 13) _ (shadowing.events.drop 14) rfl).2.2 _ rfl
  refine ⟨hn, _, _, hok, hdecl.2.1.mpr (List.cons_ne_nil _ _), ?_, _, hcall.2⟩
  refine Option.eq_none_iff_forall_ne_some.mpr fun ref href => ?_
  obtain ⟨x, hx, hcls, -⟩ := (hcall.1 ref).mp href
  cases hx
  cases hcls

end Semant
