import Semant.Proofs.Lockstep

/-!
# Scopes bind each name once

The names of a scope are kept in increasing order, so none of them occurs twice. It follows that
looking a name up and going through all bindings are two ways to ask the same: what `Store.findLocal?`
does not find is not there. Statements that count symbols or list them need this, since
`Store.symbolsIn` reads the list as it is.
-/

set_option autoImplicit false

namespace Semant

namespace Bindings

/-- Names are in increasing order. -/
def Sorted (bindings : Bindings) : Prop := bindings.Pairwise fun x y => x.1 < y.1

theorem mem_insert {bindings : Bindings} {name : String} {symbol : SymbolRef}
    {x : String × SymbolRef} (h : x ∈ bindings.insert name symbol) :
    x = (name, symbol) ∨ x ∈ bindings := by
  induction bindings with
  | nil => exact .inl (List.mem_singleton.mp h)
  | cons first rest ih =>
    obtain ⟨other, s⟩ := first
    unfold insert at h
    by_cases hlt : name < other
    · rw [if_pos hlt] at h
      exact List.mem_cons.mp h
    · rw [if_neg hlt] at h
      by_cases heq : name = other
      · rw [if_pos heq] at h
        exact (List.mem_cons.mp h).imp_right (List.mem_cons_of_mem _)
      · rw [if_neg heq] at h
        rcases List.mem_cons.mp h with rfl | h
        · exact .inr List.mem_cons_self
        · exact (ih h).imp_right (List.mem_cons_of_mem _)

theorem Sorted.insert {bindings : Bindings} (h : bindings.Sorted) (name : String)
    (symbol : SymbolRef) : (bindings.insert name symbol).Sorted := by
  induction bindings with
  | nil => exact List.pairwise_singleton _ _
  | cons first rest ih =>
    obtain ⟨other, s⟩ := first
    obtain ⟨hfirst, hrest⟩ := List.pairwise_cons.mp h
    unfold Bindings.insert
    by_cases hlt : name < other
    · rw [if_pos hlt]
      refine List.pairwise_cons.mpr ⟨?_, h⟩
      intro x hx
      rcases List.mem_cons.mp hx with rfl | hx
      · exact hlt
      · exact String.lt_trans hlt (hfirst x hx)
    · rw [if_neg hlt]
      by_cases heq : name = other
      · rw [if_pos heq]
        refine List.pairwise_cons.mpr ⟨?_, hrest⟩
        intro x hx
        rw [heq]
        exact hfirst x hx
      · rw [if_neg heq]
        -- only here does the order have to be total
        have hother : other < name := Std.lt_of_le_of_ne (String.not_lt.mp hlt) (Ne.symm heq)
        refine List.pairwise_cons.mpr ⟨?_, ih hrest⟩
        intro x hx
        rcases mem_insert hx with rfl | hx
        · exact hother
        · exact hfirst x hx

/-- What is found is what is there. -/
theorem Sorted.mem_iff {bindings : Bindings} (h : bindings.Sorted) {name : String}
    {symbol : SymbolRef} : (name, symbol) ∈ bindings ↔ bindings.find? name = some symbol := by
  induction bindings with
  | nil => simp [find?]
  | cons first rest ih =>
    obtain ⟨other, s⟩ := first
    obtain ⟨hfirst, hrest⟩ := List.pairwise_cons.mp h
    rw [find?_cons, List.mem_cons, ih hrest]
    by_cases heq : name = other
    · subst heq
      have hnot : Bindings.find? rest name ≠ some symbol := by
        intro hfound
        exact String.lt_irrefl name (hfirst _ ((ih hrest).mpr hfound))
      simp [hnot, eq_comm]
    · simp [heq]

end Bindings

/-- The names of every scope are in increasing order. -/
def Store.Tidy (store : Store) : Prop := ∀ ref, (store.scope ref).bindings.Sorted

theorem Store.Tidy.addScope {store : Store} (h : store.Tidy) {scope : Scope}
    (hs : scope.bindings.Sorted) : (store.addScope scope).Tidy := by
  intro ref
  rw [scope_addScope]
  split
  · exact hs
  · exact h ref

theorem Store.Tidy.bindIn {store : Store} (h : store.Tidy) (scope : ScopeRef) (symbol : SymbolRef) :
    (store.bindIn scope symbol).Tidy := by
  intro ref
  rw [scope_bindIn]
  split
  · exact (h ref).insert _ symbol
  · exact h ref

/-- A check binds names one at a time and changes scopes in no other way. -/
theorem stable_tidy (T : Territory) : Stable T fun s => s.store.Tidy where
  logged h _ := h
  reporting h _ := h
  heading h _ := h
  inside h _ := h
  entering h := h.addScope List.Pairwise.nil
  leaving h _ _ := h
  adding h _ _ := h
  binding h scope ref := h.bindIn scope ref
  signing h _ _ := h
  initing h _ := h
  counting _ _ h _ := h
  withScope h _ _ _ := h
  withSymbol h _ _ _ := h
  withSignature h _ _ _ := h
  withType h _ _ _ _ := h

/-- In every scope of a check that went through, looking names up finds all bindings. -/
theorem Pass.check_tidy {p : Program} {literals : Cells Ty} {s : Pass}
    (h : (Pass.check p).run (Pass.start literals) = .ok () s) : s.store.Tidy := by
  have hstart : (Pass.start literals).store.Tidy := by
    intro ref
    exact List.Pairwise.nil
  have hend := (stable_tidy (.of p.events)).check p.closed hstart
  rw [h] at hend
  exact hend

end Semant
