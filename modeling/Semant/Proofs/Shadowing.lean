import Mathlib.Logic.Relation
import Semant.Proofs.Readiness
import Semant.Proofs.ScopeTree

/-!
# Which names are bound twice

A declaration is refused if its name can be seen where it is made, so in a program without errors no
name is hidden by another one while both can be seen. This does not make names unique along the scopes
of the finished tree: a scope that was left is not looked into any more, and a declaration behind it,
in a scope around it, may have the name of one inside it (`nesting_shadowed`). It is the only way in
which a name comes to be bound in a scope and in one around it
(`analyze_ready_shadows_only_left`).

The argument compares two places of the walk, that of the inner and that of the outer declaration. Had
the outer one come first, it could still be seen at the inner one, since all scopes around an open one
are open (`Linked.inside`).
-/

set_option autoImplicit false

namespace Semant

/-- One scope lies inside another one, directly or with others between them. -/
def Store.Inside (store : Store) : ScopeRef → ScopeRef → Prop :=
  Relation.TransGen fun inner outer => (store.scope inner).parent = some outer

/-- No name is bound both in a scope of the program and in one around it. -/
def Store.Unshadowed (store : Store) (p : Program) : Prop :=
  ∀ region ∈ p.regions, ∀ inner outer, store.notes.scopes.get region.node = some inner →
    store.Inside inner outer → ∀ name ref, store.findLocal? inner name = some ref →
      store.findLocal? outer name = none

/-- The scope of the node was opened by some events and left again. -/
def Left (events : List Event) (node : NodeId) : Prop :=
  node ∈ events.filterMap Event.opens? ∧ node ∉ openScopes events

/-! ## Places of declarations -/

theorem mem_declarationsIn {outer : List NodeId} {events : List Event} {x : NodeId × Definition} :
    x ∈ declarationsIn outer events ↔
      ∃ before event rest, events = before ++ event :: rest ∧ event.declares? = some x.2 ∧
        (before.foldl Event.scopes outer).head? = some x.1 := by
  obtain ⟨node, d⟩ := x
  induction events generalizing outer with
  | nil => simp [declarationsIn]
  | cons event rest ih =>
    have hhere : (node, d) ∈ (event.declaration? outer).toList ↔
        event.declares? = some d ∧ outer.head? = some node := by
      simp [Event.declaration?, Option.bind_eq_some_iff, and_comm]
    rw [declarationsIn, List.mem_append, hhere, ih]
    constructor
    · rintro (⟨hd, hnode⟩ | ⟨before, later, after, rfl, hd, hnode⟩)
      · exact ⟨[], event, rest, rfl, hd, hnode⟩
      · exact ⟨event :: before, later, after, rfl, hd, hnode⟩
    · rintro ⟨before, later, after, hsplit, hd, hnode⟩
      cases before with
      | nil =>
        cases hsplit
        exact .inl ⟨hd, hnode⟩
      | cons first before =>
        cases hsplit
        exact .inr ⟨before, later, after, rfl, hd, hnode⟩

theorem mem_scopes {outer : List NodeId} {event : Event} {node : NodeId}
    (h : node ∈ event.scopes outer) : node ∈ outer ∨ event.opens? = some node := by
  cases event with
  | enterProgram p | enterBlock b | enterFunction f =>
    rcases List.mem_cons.mp h with rfl | h
    · exact .inr rfl
    · exact .inl h
  | exitProgram p | exitBlock b | exitFunction f => exact .inl (List.mem_of_mem_tail h)
  | _ => exact .inl h

theorem opened_of_mem_openScopes {events : List Event} {node : NodeId}
    (h : node ∈ openScopes events) : node ∈ events.filterMap Event.opens? := by
  have hfold : ∀ (events : List Event) (outer : List NodeId),
      node ∈ events.foldl Event.scopes outer →
        node ∈ outer ∨ node ∈ events.filterMap Event.opens? := by
    intro events
    induction events with
    | nil => exact fun outer h => .inl h
    | cons event rest ih =>
      intro outer h
      rcases ih _ h with h | h
      · rcases mem_scopes h with h | h
        · exact .inl h
        · exact .inr (List.mem_filterMap.mpr ⟨event, List.mem_cons_self, h⟩)
      · obtain ⟨other, hm, ho⟩ := List.mem_filterMap.mp h
        exact .inr (List.mem_filterMap.mpr ⟨other, List.mem_cons_of_mem event hm, ho⟩)
  exact (hfold events [] h).resolve_left List.not_mem_nil

theorem mem_seen_of_before {first rest : List Event} {event : Event} {node : NodeId}
    {d : Definition} (hd : event.declares? = some d) (hhome : (openScopes first).head? = some node)
    (hopen : node ∈ openScopes (first ++ event :: rest)) :
    (node, d) ∈ seen (first ++ event :: rest) d.name :=
  List.mem_filter.mpr ⟨mem_declarationsIn.mpr ⟨first, event, rest, rfl, hd, hhome⟩, by simp [hopen]⟩

/-- Of two places in a list one comes first, unless they are the same. -/
theorem places_cases {before rest before' rest' : List Event} {event event' : Event}
    (h : before ++ event :: rest = before' ++ event' :: rest') :
    before = before' ∨ (∃ between, before' = before ++ event :: between) ∨
      ∃ between, before = before' ++ event' :: between := by
  rcases List.append_eq_append_iff.mp h with ⟨middle, rfl, hrest⟩ | ⟨middle, rfl, hrest⟩ <;>
    cases middle with
    | nil => simp
    | cons first middle =>
      cases hrest
      simp

namespace Outline

/-! ## Scopes around an open scope -/

/-- All scopes around the innermost one that is open are open too. -/
theorem Linked.inside {regions : List (NodeId × Option NodeId)}
    (hone : ∀ {node around around'}, (node, around) ∈ regions → (node, around') ∈ regions →
      around = around') {outer : NodeId} :
    ∀ {frames : List Frame} {frame : Frame}, Linked regions (frame :: frames) →
      Relation.TransGen (fun a b => (a, some b) ∈ regions) frame.node outer →
        outer ∈ frames.map Frame.node := by
  intro frames
  induction frames with
  | nil =>
    intro frame hl hin
    obtain ⟨next, hnext, -⟩ := Relation.TransGen.head'_iff.mp hin
    cases hone hl.1 hnext
  | cons around frames ih =>
    intro frame hl hin
    obtain ⟨next, hnext, hrest⟩ := Relation.TransGen.head'_iff.mp hin
    cases hone hl.1 hnext
    rcases Relation.reflTransGen_iff_eq_or_transGen.mp hrest with rfl | hrest
    · exact List.mem_cons_self
    · exact List.mem_cons_of_mem _ (ih hl.2 hrest)

theorem Charts.around_unique {o : Outline} {p : Program} {s : Pass} (h : o.Charts p s)
    {node : NodeId} {around around' : Option NodeId} (hm : (node, around) ∈ o.regions)
    (hm' : (node, around') ∈ o.regions) : around = around' := by
  obtain ⟨k, hk, hregion⟩ := h.describes.region_of_mem hm
  obtain ⟨j, hj, hregion'⟩ := h.describes.region_of_mem hm'
  cases hk.symm.trans hj
  cases hregion.symm.trans hregion'
  rfl

/-- What lies inside each other in the store does so in the tree. -/
theorem Charts.inside {o : Outline} {p : Program} {s : Pass} (h : o.Charts p s) (store : Store)
    {region : Region} (hr : region ∈ p.regions) {inner outer : ScopeRef}
    (hs : (store.grown p s.store).notes.scopes.get region.node = some inner)
    (hin : (store.grown p s.store).Inside inner outer) :
    ∃ around ∈ p.regions, (store.grown p s.store).notes.scopes.get around.node = some outer ∧
      Relation.TransGen (fun a b => (a, some b) ∈ o.regions) region.node around.node := by
  have hstep : ∀ {region : Region} {inner outer : ScopeRef}, region ∈ p.regions →
      (store.grown p s.store).notes.scopes.get region.node = some inner →
      ((store.grown p s.store).scope inner).parent = some outer →
      ∃ around ∈ p.regions, (store.grown p s.store).notes.scopes.get around.node = some outer ∧
        (region.node, some around.node) ∈ o.regions := by
    intro region inner outer hr hs hp
    obtain ⟨k, hk⟩ := List.mem_iff_getElem?.mp hr
    have hm := h.mirrors store hk
    cases hm.recorded.symm.trans hs
    rw [hm.parent] at hp
    obtain ⟨next, haround, hnext⟩ := Option.bind_eq_some_iff.mp hp
    have hregion := List.mem_of_getElem? (h.region hk)
    rw [haround] at hregion
    obtain ⟨further, hfurther⟩ := h.names.around hregion
    rw [h.regions] at hfurther
    obtain ⟨around, ham, heq⟩ := List.mem_map.mp hfurther
    cases heq
    exact ⟨around, ham, hnext, hregion⟩
  -- along the links outwards; every scope on the way is that of a region
  induction hin with
  | single hp =>
    obtain ⟨around, ham, hsome, hlink⟩ := hstep hr hs hp
    exact ⟨around, ham, hsome, .single hlink⟩
  | tail _ hp ih =>
    obtain ⟨middle, hmm, hmiddle, hrest⟩ := ih
    obtain ⟨around, ham, hsome, hlink⟩ := hstep hmm hmiddle hp
    exact ⟨around, ham, hsome, hrest.tail hlink⟩

/-! ## Programs without errors -/

/-- Without an error, no declaration is made where its name can be seen. -/
theorem Clean.seen_nil {literals : Cells Ty} {before rest : List Event} {event : Event}
    (ho : (start literals).Orderly (before ++ event :: rest))
    (hc : (start literals).Clean (before ++ event :: rest)) {d : Definition}
    (hd : event.declares? = some d) : seen before d.name = [] := by
  obtain ⟨hbefore, hpermits, -⟩ := (orderly_append _ before (event :: rest)).mp ho
  obtain ⟨-, hclean, -⟩ := (clean_append _ before (event :: rest)).mp hc
  obtain ⟨-, -, others, hreports, -⟩ := of_declares hd hpermits
  rw [hreports, Diagnostics.errorCount_append] at hclean
  exact (follows_run hbefore).seen_nil.mpr ((clean_duplicate _ d).mp (by omega))

/-- What a scope of the program binds was declared in it. -/
theorem Charts.declaration {o : Outline} {p : Program} {s : Pass} (h : o.Charts p s) (store : Store)
    {region : Region} (hr : region ∈ p.regions) {scope : ScopeRef} {name : String} {ref : SymbolRef}
    (hs : (store.grown p s.store).notes.scopes.get region.node = some scope)
    (hfind : (store.grown p s.store).findLocal? scope name = some ref) :
    ((store.grown p s.store).symbol ref).definition.name = name ∧
      (region.node, ((store.grown p s.store).symbol ref).definition) ∈ declarationsIn [] p.events := by
  obtain ⟨k, hk⟩ := List.mem_iff_getElem?.mp hr
  cases (h.mirrors store hk).recorded.symm.trans hs
  rw [Store.findLocal?_grown] at hfind
  obtain ⟨place, hplace, rfl⟩ := Option.map_eq_some_iff.mp hfind
  obtain ⟨d, hdecl, hname, -⟩ := (h.describes.bindings (h.region hk) name place).mp hplace
  have hsymbol : ((store.grown p s.store).symbol (store.symbols.size + place)).definition = d := by
    rw [Store.symbol_grown]
    exact (h.describes.symbol hdecl).1
  rw [hsymbol, ← h.declared]
  exact ⟨hname, List.mem_of_getElem? hdecl⟩

end Outline

open Outline

/-- The scopes around the one that a declaration is made in are open there, behind it. -/
theorem Outline.Charts.open_around {literals : Cells Ty} {p : Program} {s : Pass}
    {before rest : List Event} (h : ((Outline.start literals).run (before ++ rest)).Charts p s)
    (ho : (Outline.start literals).Orderly before) {node outer : NodeId}
    (hhome : (openScopes before).head? = some node)
    (hin : Relation.TransGen
      (fun a b => (a, some b) ∈ ((Outline.start literals).run (before ++ rest)).regions) node outer) :
    outer ∈ openScopes before ∧ outer ≠ node := by
  have hfollows := follows_run ho
  rw [← hfollows.nodes] at hhome ⊢
  have hlinked := hfollows.names.linked
  have hdistinct := hfollows.names.distinct
  cases hfr : ((Outline.start literals).run before).frames with
  | nil =>
    rw [hfr] at hhome
    cases hhome
  | cons frame frames =>
    rw [hfr] at hhome hlinked hdistinct
    cases hhome
    have hsub := (((Outline.start literals).run before).regions_run rest).subset
    rw [← run_append] at hsub
    have houter := (hlinked.mono hsub).inside h.around_unique hin
    refine ⟨List.mem_cons_of_mem _ houter, ?_⟩
    rintro rfl
    exact (List.nodup_cons.mp hdistinct).1 houter

/-- **A name is only hidden from behind.** In a program without errors, in which no node occurs twice,
no declaration is made where another one of its name can be seen. So a name that is bound in a scope of
the program and also in one around it was declared in the outer one after the inner one had been left. -/
theorem analyze_ready_shadows_only_left {store after : Store} {p : Program} {a : Analysis}
    (hn : p.nodes.Nodup) (h : store.analyze p = (.ok a, after)) (hready : a.isReady = true) :
    (∀ before event rest d, p.events = before ++ event :: rest → event.declares? = some d →
      seen before d.name = []) ∧
    ∀ region ∈ p.regions, ∀ inner outer, after.notes.scopes.get region.node = some inner →
      after.Inside inner outer → ∀ name hidden late, after.findLocal? inner name = some hidden →
        after.findLocal? outer name = some late →
          ∃ before event rest, p.events = before ++ event :: rest ∧
            event.declares? = some (after.symbol late).definition ∧ Left before region.node := by
  obtain ⟨horderly, -, hds, hjournal, -⟩ := Store.analyze_outcome hn h
  obtain ⟨s, hcharts, -, -, -, rfl⟩ := Store.analyze_charts hn h
  have hclean : (Outline.start store.notes.literals).Clean p.events := by
    rw [clean_iff_journal, ← hjournal, ← hds, ← (Store.analyze_tallied h).1]
    exact of_decide_eq_true hready
  have hnil : ∀ before event rest d, p.events = before ++ event :: rest →
      event.declares? = some d → seen before d.name = [] := by
    intro before event rest d hsplit hd
    rw [hsplit] at horderly hclean
    exact Clean.seen_nil horderly hclean hd
  refine ⟨hnil, ?_⟩
  intro region hr inner outer hs hin name hidden late hhidden hlate
  obtain ⟨around, har, houter, hlink⟩ := hcharts.inside store hr hs hin
  obtain ⟨hname, hdecl⟩ := hcharts.declaration store hr hs hhidden
  obtain ⟨hname', hdecl'⟩ := hcharts.declaration store har houter hlate
  obtain ⟨before, event, rest, hsplit, hd, hhome⟩ := mem_declarationsIn.mp hdecl
  obtain ⟨before', event', rest', hsplit', hd', hhome'⟩ := mem_declarationsIn.mp hdecl'
  have hopen : around.node ∈ openScopes before ∧ around.node ≠ region.node := by
    rw [hsplit] at hcharts hlink horderly
    exact hcharts.open_around ((orderly_append _ _ _).mp horderly).1 hhome hlink
  refine ⟨before', event', rest', hsplit', hd', ?_⟩
  -- which of the two declarations comes first in the walk
  rcases places_cases (hsplit.symm.trans hsplit') with rfl | ⟨between, rfl⟩ | ⟨between, rfl⟩
  · -- Both are one declaration, and that is made in one scope.
    exact absurd (Option.some.inj (hhome'.symm.trans hhome)) hopen.2
  · -- the inner one came first: had its scope still been open, the outer one would have been refused
    refine ⟨?_, fun hstill => ?_⟩
    · rw [List.filterMap_append]
      exact List.mem_append_left _ (opened_of_mem_openScopes (List.mem_of_mem_head? hhome))
    · have hseen := mem_seen_of_before hd hhome hstill
      rw [hname, ← hname', hnil _ _ _ _ hsplit' hd'] at hseen
      cases hseen
  · -- The outer declaration came first, and could have been seen.
    have hseen := mem_seen_of_before hd' hhome' hopen.1
    rw [hname', ← hname, hnil _ _ _ _ hsplit hd] at hseen
    cases hseen

theorem nesting_analyzed :
    nesting.nodes.Nodup ∧ nesting.untyped? ({} : Store).notes.literals = none ∧
      ∃ a after, ({} : Store).analyze nesting = (.ok a, after) ∧ a.isReady = true ∧
        after.notes.scopes.get 5 = some 3 ∧ after.Inside 3 2 ∧
        after.findLocal? 3 "b" = some 3 ∧ after.findLocal? 2 "b" = some 4 := by
  have hn : nesting.nodes.Nodup := by decide
  have hl : nesting.untyped? ({} : Store).notes.literals = none := rfl
  obtain ⟨s, -, -, hok⟩ := Store.analyze_ok hn (by decide) hl
  have hready : (({} : Store).analyze nesting).1.toOption.map Analysis.isReady = some true := by
    decide +kernel
  have hstore : (({} : Store).analyze nesting).2.notes.scopes.get 5 = some 3 ∧
      ((({} : Store).analyze nesting).2.scope 3).parent = some 2 ∧
      (({} : Store).analyze nesting).2.findLocal? 3 "b" = some 3 ∧
      (({} : Store).analyze nesting).2.findLocal? 2 "b" = some 4 := by
    decide +kernel
  rw [hok] at hready hstore
  exact ⟨hn, hl, _, _, hok, Option.some.inj hready, hstore.1, .single hstore.2.1, hstore.2.2⟩

/-- The loop's declaration and the one behind the loop have one name. There is no error, although the
scope of the loop lies inside that of the body. -/
theorem nesting_shadowed :
    nesting.nodes.Nodup ∧ nesting.untyped? ({} : Store).notes.literals = none ∧
      ∃ a after, ({} : Store).analyze nesting = (.ok a, after) ∧ a.isReady = true ∧
        ¬ after.Unshadowed nesting := by
  obtain ⟨hn, hl, a, after, hok, hready, hscope, hinside, hinner, houter⟩ := nesting_analyzed
  refine ⟨hn, hl, a, after, hok, hready, fun h => ?_⟩
  have hloop : (⟨5, some 4, _⟩ : Region) ∈ nesting.regions := List.mem_of_getElem? (i := 3) rfl
  exact absurd (h _ hloop 3 2 hscope hinside "b" 3 hinner) (by simp [houter])

/-- The declaration behind the loop is made when the loop's scope has been left. -/
theorem nesting_left :
    nesting.nodes.Nodup ∧ ∃ a after, ({} : Store).analyze nesting = (.ok a, after) ∧
      a.isReady = true ∧ after.notes.scopes.get 5 = some 3 ∧ after.Inside 3 2 ∧
      after.findLocal? 3 "b" = some 3 ∧ after.findLocal? 2 "b" = some 4 ∧
      ∃ before event rest, nesting.events = before ++ event :: rest ∧
        event.declares? = some (after.symbol 4).definition ∧ Left before 5 := by
  obtain ⟨hn, -, a, after, hok, hready, hscope, hinside, hinner, houter⟩ := nesting_analyzed
  have hloop : (⟨5, some 4, _⟩ : Region) ∈ nesting.regions := List.mem_of_getElem? (i := 3) rfl
  have hleft := (analyze_ready_shadows_only_left hn hok hready).2 _ hloop 3 2 hscope hinside "b" 3 4
    hinner houter
  exact ⟨hn, a, after, hok, hready, hscope, hinside, hinner, houter, hleft⟩

end Semant
