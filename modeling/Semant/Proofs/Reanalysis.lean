import Semant.Proofs.Placement

/-!
# Analysing again

A tree may be analysed many times, after an analysis that went through, after one that stopped halfway,
or after somebody wrote into its cells. None of this shows in the result. The statement needs some care,
since two analyses in two stores cannot give *equal* scopes and symbols: they are at different places.
What is claimed is that they correspond. Counted from where each analysis began, the scopes have the same
numbers, links and bindings, the symbols are the same, and each cell of the tree refers to the same one.

Nothing is assumed of the tree. It may use one node in several places, and then most analyses stop with
an error; it is the same error each time.
-/

set_option autoImplicit false

namespace Semant

/-- Two places at the same distance from where two analyses began. -/
def Aligned (base base' place place' : Nat) : Prop := ∃ i, place = base + i ∧ place' = base' + i

theorem aligned_map (base base' : Nat) (x : Option Nat) :
    Option.Rel (Aligned base base') (x.map (base + ·)) (x.map (base' + ·)) := by
  cases x with
  | none => exact .none
  | some i => exact .some ⟨i, rfl, rfl⟩

/-- Two analyses gave the same answer: the same error, or the same diagnostics with the same counts, and
corresponding scopes. -/
def SameAnswer (base base' : Store) :
    Except InternalError Analysis → Except InternalError Analysis → Prop
  | .error e, .error e' => e = e'
  | .ok a, .ok a' =>
    a.program = a'.program ∧ a.diagnostics = a'.diagnostics ∧ a.errorCount = a'.errorCount ∧
      a.warningCount = a'.warningCount ∧ a.stack.next = a'.stack.next ∧
      Aligned base.scopes.size base'.scopes.size a.root a'.root ∧
      Option.Rel (Aligned base.scopes.size base'.scopes.size) a.stack.root a'.stack.root ∧
      Option.Rel (Aligned base.scopes.size base'.scopes.size) a.stack.active a'.stack.active
  | _, _ => False

/-- Two stores hold the same about a program, one behind `base` and the other behind `base'`. -/
structure Program.SameFindings (p : Program) (base base' after after' : Store) : Prop where
  /-- As many scopes are new, -/
  scopes : Aligned base.scopes.size base'.scopes.size after.scopes.size after'.scopes.size
  /-- and as many symbols. -/
  symbols : Aligned base.symbols.size base'.symbols.size after.symbols.size after'.symbols.size
  ids : ∀ r r', Aligned base.scopes.size base'.scopes.size r r' →
    (after.scope r).id = (after'.scope r').id
  parents : ∀ r r', Aligned base.scopes.size base'.scopes.size r r' →
    Option.Rel (Aligned base.scopes.size base'.scopes.size) (after.scope r).parent
      (after'.scope r').parent
  names : ∀ r r', Aligned base.scopes.size base'.scopes.size r r' →
    (after.scope r).bindings.map Prod.fst = (after'.scope r').bindings.map Prod.fst
  bindings : ∀ r r', Aligned base.scopes.size base'.scopes.size r r' → ∀ name,
    Option.Rel (Aligned base.symbols.size base'.symbols.size) (after.findLocal? r name)
      (after'.findLocal? r' name)
  /-- Symbols agree in all there is: definition, type, signature, flags and references. -/
  symbol : ∀ r r', Aligned base.symbols.size base'.symbols.size r r' →
    after.symbol r = after'.symbol r'
  types : ∀ e, .enterExpr e ∈ p.events → after.notes.typeOf e = after'.notes.typeOf e
  slots : ∀ event ∈ p.events, ∀ n, event.mentions? = some n →
    Option.Rel (Aligned base.symbols.size base'.symbols.size) (after.notes.symbols.get n)
      (after'.notes.symbols.get n)
  opened : ∀ event ∈ p.events, ∀ n, event.opens? = some n →
    Option.Rel (Aligned base.scopes.size base'.scopes.size) (after.notes.scopes.get n)
      (after'.notes.scopes.get n)
  signatures : ∀ f, .enterFunction f ∈ p.events →
    after.notes.signatures.get f.id = after'.notes.signatures.get f.id

/-- Analysing a program gives the same in two stores. -/
def Store.SameAnalysis (base base' : Store) (p : Program) : Prop :=
  SameAnswer base base' (base.analyze p).1 (base'.analyze p).1 ∧
    p.SameFindings base base' (base.analyze p).2 (base'.analyze p).2

theorem Store.SameAnalysis.eq_error {base base' : Store} {p : Program} {e : InternalError}
    (h : base.SameAnalysis base' p) (he : (base.analyze p).1 = .error e) :
    (base'.analyze p).1 = .error e := by
  have hanswer := h.1
  rw [he] at hanswer
  cases hr : (base'.analyze p).1 with
  | error e' =>
    rw [hr] at hanswer
    exact congrArg Except.error hanswer.symm
  | ok a =>
    rw [hr] at hanswer
    exact hanswer.elim

/-- Everything that a store has is still there in another, at the same place. -/
structure Store.Extends (after store : Store) : Prop where
  scopes : store.scopes.size ≤ after.scopes.size
  symbols : store.symbols.size ≤ after.symbols.size
  scope : ∀ ref, ref < store.scopes.size → after.scope ref = store.scope ref
  symbol : ∀ ref, ref < store.symbols.size → after.symbol ref = store.symbol ref

/-! ## One check on top of two stores -/

theorem Bindings.names_moved (bindings : Bindings) (symbolBase : Nat) :
    (bindings.moved symbolBase).map Prod.fst = bindings.map Prod.fst := by
  simp [Bindings.moved, Function.comp_def]

theorem Store.sameFindings_link {p : Program} {store store' : Store}
    (h : p.LiteralsAgree store.notes store'.notes) (made : Store) :
    p.SameFindings store store' (store.grown p made) (store'.grown p made) where
  scopes := ⟨made.scopes.size, size_link _ made, size_link _ made⟩
  symbols := ⟨made.symbols.size, symbols_size_link _ made, symbols_size_link _ made⟩
  -- what corresponds lies at the same distance from the two old ends
  ids := by
    rintro _ _ ⟨i, rfl, rfl⟩
    rw [scope_grown, scope_grown]
    rfl
  parents := by
    rintro _ _ ⟨i, rfl, rfl⟩
    rw [scope_grown, scope_grown]
    exact aligned_map _ _ _
  names := by
    rintro _ _ ⟨i, rfl, rfl⟩
    rw [scope_grown, scope_grown]
    exact (Bindings.names_moved _ _).trans (Bindings.names_moved _ _).symm
  bindings := by
    rintro _ _ ⟨i, rfl, rfl⟩ name
    rw [findLocal?_grown, findLocal?_grown]
    exact aligned_map _ _ _
  symbol := by
    rintro _ _ ⟨i, rfl, rfl⟩
    rw [symbol_grown, symbol_grown]
  types := by
    intro e hm
    cases he : e.isLiteral with
    | true => rw [literals_grown _ _ he, literals_grown _ _ he, h e hm he]
    | false => rw [types_grown _ _ hm he, types_grown _ _ hm he]
  slots := by
    intro event hm n hn
    rw [symbols_grown _ _ hm hn, symbols_grown _ _ hm hn]
    exact aligned_map _ _ _
  opened := by
    intro event hm n hn
    rw [scopes_grown _ _ hm hn, scopes_grown _ _ hm hn]
    exact aligned_map _ _ _
  signatures := by
    intro f hm
    rw [signatures_grown _ _ hm, signatures_grown _ _ hm]

theorem sameAnalysis_of_literalsAgree {p : Program} {store store' : Store}
    (h : p.LiteralsAgree store.notes store'.notes) : store.SameAnalysis store' p := by
  have hown := p.literalsAgree_literals store.notes
  have hother : p.LiteralsAgree store'.notes { literals := store.notes.literals } := by
    intro e hm he
    rw [← h e hm he]
    exact hown e hm he
  unfold Store.SameAnalysis
  rw [store.analyze_eq_link hown, store'.analyze_eq_link hother]
  cases hcheck : (Pass.check p).run (Pass.start store.notes.literals) with
  | ok u s =>
    obtain ⟨root, hroot⟩ := Pass.root_of_check hcheck
    exact ⟨⟨rfl, rfl, rfl, rfl, rfl, ⟨root, Pass.root_above hroot p, Pass.root_above hroot p⟩,
      aligned_map _ _ _, aligned_map _ _ _⟩, Store.sameFindings_link h s.store⟩
  | error e s => exact ⟨rfl, Store.sameFindings_link h s.store⟩

/-! ## The store after an analysis -/

theorem Store.extends_link (store : Store) (notes : Annotations) (made : Store) :
    ((store.annotate notes).link made).Extends store where
  scopes := by
    rw [size_link]
    exact Nat.le_add_right _ _
  symbols := by
    rw [symbols_size_link]
    exact Nat.le_add_right _ _
  scope := by
    intro ref h
    exact scope_link_below (store.annotate notes) made h
  symbol := by
    intro ref h
    exact symbol_link_below (store.annotate notes) made h

theorem Store.exists_link (store : Store) (p : Program) :
    ∃ made, (store.analyze p).2 = store.grown p made := by
  rw [store.analyze_eq_link (p.literalsAgree_literals store.notes)]
  cases (Pass.check p).run (Pass.start store.notes.literals) with
  | ok u s => exact ⟨s.store, rfl⟩
  | error e s => exact ⟨s.store, rfl⟩

theorem Store.extends_analyze (store : Store) (p : Program) :
    (store.analyze p).2.Extends store := by
  obtain ⟨made, hmade⟩ := store.exists_link p
  rw [hmade]
  exact store.extends_link _ made

/-- **Analyses do not depend on what is left in the tree.** In any two stores in which the literals of a
program have the same types, its analyses give the same error or the same diagnostics, and the same
scopes, symbols and types, up to the places where they are kept. So analysing a program twice repeats
the first analysis; and whatever a store held before an analysis is there unchanged afterwards, be the
analysis one of the same tree or of another. -/
theorem analyze_ignores_annotations {p : Program} {store store' : Store}
    (h : p.LiteralsAgree store.notes store'.notes) :
    store.SameAnalysis store' p ∧ store.SameAnalysis (store.analyze p).2 p ∧
      ∀ q : Program, (store.analyze q).2.Extends store := by
  refine ⟨sameAnalysis_of_literalsAgree h, sameAnalysis_of_literalsAgree ?_, store.extends_analyze⟩
  obtain ⟨made, hmade⟩ := store.exists_link p
  intro e _ he
  rw [hmade, Store.literals_grown store made he]

/-- A block with the same node in two places. -/
def sharing : Program :=
  let at' (line column : UInt32) : Position := ⟨"share.dk", line, column⟩
  let use : Expr := .var 4 104 ⟨"n", at' 3 3⟩
  { id := 0
    file := "share.dk"
    items :=
      [.data
        { decl := ⟨1, false, ⟨.integerType, "int", at' 1 1⟩, ⟨"n", at' 1 5⟩⟩
          init := some (.literal 2 ⟨.integerLiteral, "1", at' 1 9⟩ (some .int)) },
      .start
        { keyword := ⟨.startWord, "start", at' 2 1⟩
          body := .mk 3 ⟨.leftBrace, "\x7b", at' 2 7⟩ [.expr use, .expr use] }] }

/-- A store in which somebody wrote into the cells of that tree. -/
def scribbled : Store :=
  { notes :=
      { types := Cells.empty.put 4 .string
        scopes := Cells.empty.put 0 7
        symbols := Cells.empty.put 4 9 } }

theorem Store.analyze_of_failure? {store : Store} {p : Program} {e : InternalError}
    (h : Pass.failure? ((Pass.check p).run (store.checking p)) = some e) :
    (store.analyze p).1 = .error e := by
  rw [store.analyze_eq]
  cases hr : (Pass.check p).run (store.checking p) with
  | ok u s =>
    rw [hr] at h
    cases h
  | error e' s =>
    rw [hr] at h
    cases h
    rfl

/-- The analysis stops where the node comes the second time, scribbles or not. -/
theorem sharing_stops_alike :
    sharing.LiteralsAgree ({} : Store).notes scribbled.notes ∧
      (scribbled.analyze sharing).1 = .error (.reannotated (.variable ⟨"share.dk", 3, 3⟩)) ∧
      ({} : Store).SameAnalysis scribbled sharing := by
  have hagree : sharing.LiteralsAgree ({} : Store).notes scribbled.notes := by
    intro e _ he
    cases e with
    | literal id token given => rfl
    | _ => cases he
  have hfresh := Store.analyze_of_failure?
    (show Pass.failure? ((Pass.check sharing).run (({} : Store).checking sharing))
      = some (.reannotated (.variable ⟨"share.dk", 3, 3⟩)) by decide +kernel)
  have hsame := (@analyze_ignores_annotations sharing {} scribbled hagree).1
  exact ⟨hagree, hsame.eq_error hfresh, hsame⟩

end Semant
