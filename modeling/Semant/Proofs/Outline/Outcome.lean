import Semant.Proofs.Outline.Run

/-!
# What an analysis leaves in the store

The scopes and symbols of a check come behind those that the store had, and its findings on top of
what was known. Nodes of the program may have been annotated before; their cells are emptied first, so
that what is found there afterwards is all from this check. `Outline.Outcome` says so in terms of the
outline of the whole program, and after this file nobody asks where in the store the check began.
-/

set_option autoImplicit false

namespace Semant

/-- The scope of the node binds the name of the declaration to a symbol, which is that of the
declaration. -/
def Store.Binds (store : Store) (node : NodeId) (d : Definition) (ref : SymbolRef) : Prop :=
  ∃ scope, store.notes.scopes.get node = some scope ∧
    store.findLocal? scope d.name = some ref ∧ (store.symbol ref).definition = d

/-! ## The outcome -/

/-- What is found in the store after an analysis is what the outline of the program says. -/
structure Outline.Outcome (o : Outline) (p : Program) (store after : Store) : Prop where
  /-- Declarations and references have the symbol of the declaration they stand for. -/
  symbols : ∀ event ∈ p.events, ∀ n, event.mentions? = some n →
    after.notes.symbols.get n = (o.symbolOf n).map fun entry => store.symbols.size + entry.place
  types : ∀ e, .enterExpr e ∈ p.events → after.notes.typeOf e = o.typeOf e
  untyped : ∀ e, after.notes.typeOf e = none → o.typeOf e = none
  /-- A scope binds the declarations made in it that stand for themselves. -/
  binds : ∀ {node : NodeId} {around : Option NodeId}, (node, around) ∈ o.regions →
    ∀ d ref, after.Binds node d ref ↔ ∃ place, store.symbols.size + place = ref ∧
      o.declared[place]? = some (node, d) ∧ o.symbolOf d.id = some ⟨place, d⟩

theorem Outline.Describes.outcome {o : Outline} {s : Pass} (h : o.Describes s) {p : Program}
    {store : Store} (hl : o.literals = store.notes.literals) :
    o.Outcome p store (store.grown p s.store) where
  symbols := by
    intro event hm n hn
    rw [store.symbols_grown s.store hm hn, h.slots]
    cases o.symbolOf n <;> rfl
  types := by
    intro e hm
    cases e with
    | literal id token given =>
      rw [store.literals_grown s.store rfl]
      simp [Annotations.typeOf, Outline.typeOf, hl]
    | _ =>
      rw [store.types_grown s.store hm rfl, h.types]
      rfl
  -- here the event need not be one of the program, so `types_grown` does not help
  untyped := by
    intro e hnone
    cases e with
    | literal id token given =>
      rw [store.literals_grown s.store rfl] at hnone
      simpa [Annotations.typeOf, Outline.typeOf, hl] using hnone
    | _ =>
      simp only [Annotations.typeOf, Outline.typeOf] at hnone ⊢
      rw [Store.grown, Store.types_link, h.types, Option.or_eq_none_iff] at hnone
      exact hnone.1
  binds := by
    intro node around hm d ref
    obtain ⟨k, hk, hregion⟩ := h.region_of_mem hm
    have hscope := store.scopes_grown_some p s.store hk
    constructor
    · rintro ⟨scope, hs, hfind, hd⟩
      cases hscope.symm.trans hs
      rw [Store.findLocal?_grown] at hfind
      obtain ⟨place, hplace, rfl⟩ := Option.map_eq_some_iff.mp hfind
      obtain ⟨d', hdecl, -, hsymbol⟩ := (h.bindings hregion _ _).mp hplace
      rw [Store.symbol_grown, (h.symbol hdecl).1] at hd
      subst hd
      exact ⟨place, rfl, hdecl, hsymbol⟩
    · rintro ⟨place, rfl, hdecl, hsymbol⟩
      have hlocal := (h.bindings hregion d.name place).mpr ⟨d, hdecl, rfl, hsymbol⟩
      have hsymbol := store.symbol_grown p s.store place
      refine ⟨_, hscope, ?_, ?_⟩
      · rw [Store.findLocal?_grown, hlocal]
        rfl
      · exact (congrArg Symbol.definition hsymbol).trans (h.symbol hdecl).1

/-- **What is known once an analysis went through**, of its reports and of the store after it. -/
theorem Store.analyze_outcome {store after : Store} {p : Program} {a : Analysis}
    (hn : p.nodes.Nodup) (h : store.analyze p = (.ok a, after)) :
    (Outline.start store.notes.literals).Orderly p.events ∧
      p.untyped? store.notes.literals = none ∧
      a.diagnostics = (store.journal p).flatMap Prod.snd ∧
      store.journal p = (Outline.start store.notes.literals).journal p.events ∧
      ((Outline.start store.notes.literals).run p.events).Outcome p store after := by
  obtain ⟨ht, hl, s, hs, hds, rfl⟩ := Store.analyze_inv hn h
  have hjournal : store.journal p = _ := Pass.journal_eq hn ht hl
  refine ⟨p.orderly _ hn ht, hl, by rw [hds, hjournal], hjournal, hs.outcome ?_⟩
  simp [Outline.start]

end Semant
