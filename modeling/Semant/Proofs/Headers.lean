import Semant.Proofs.Changes
import Semant.Proofs.Outline.Simulation

/-!
# The calls that make a signature

A function is declared by several calls: one for its name, one for each parameter, and one that closes the
signature and stores it. This file says of each call what it does to the open signature and when it goes
through. Most steps of a pass leave the open signature alone, and that is said once for each of them
(`Pass.SameHeader`).

A call that opens or closes a signature may fail half way. A function that could not be declared has
opened nothing, but a signature that could not be stored is closed all the same.
-/

set_option autoImplicit false

namespace Semant

/-! ## Steps that leave the open signature alone -/

namespace Pass

variable {α : Type}

/-- The same signature is open, if any. -/
def SameHeader (s t : Pass) : Prop := t.header = s.header

theorem Takes.header_after {x : PassM α} (h : Takes SameHeader x) (s : Pass) :
    (after (x.run s)).header = s.header := by
  have hall := h s
  generalize after (x.run s) = t at hall
  induction hall with
  | refl => rfl
  | tail _ hstep ih => exact hstep.trans ih

theorem sameHeader_note (entry : LogEntry) : Takes SameHeader (note entry) :=
  .change fun _ => rfl

theorem sameHeader_report (severity : Severity) (position : Position) (finding : Finding) :
    Takes SameHeader (report severity position finding) :=
  .report (fun _ _ _ => .single rfl) _ _ _

theorem sameHeader_record {ε : Type} (subject : Subject)
    (fill : Annotations → Except ε Annotations) : Takes SameHeader (record subject fill) := by
  unfold record
  apply Takes.look
  intro s
  cases fill s.store.notes with
  | error e => exact .refl
  | ok notes => exact .single rfl

theorem sameHeader_bind (scope : ScopeRef) (ref : SymbolRef) :
    Takes SameHeader (bind scope ref) := by
  unfold bind
  apply Takes.look
  intro s
  dsimp only
  cases s.store.find? scope (s.store.symbol ref).name with
  | some old => exact ((sameHeader_report _ _ _).bind fun _ => Takes.value _) s
  | none =>
    refine ((sameHeader_note _).bind fun _ => Takes.bind ?_ fun _ => Takes.value _) s
    exact .change fun _ => rfl

theorem sameHeader_activeScope : Takes SameHeader activeScope := by
  unfold activeScope
  apply Takes.look
  intro s
  cases s.stack.active with
  | none => exact .refl
  | some scope => exact .refl

theorem sameHeader_bindAt (node : NodeId) (ref : SymbolRef) (subject : Subject) :
    Takes SameHeader (bindAt node ref subject) := by
  unfold bindAt
  refine sameHeader_activeScope.bind fun scope => (sameHeader_bind scope ref).bind fun bound => ?_
  cases bound with
  | none => exact .value _
  | some bound => exact (sameHeader_record _ _).bind fun _ => .value _

theorem sameHeader_declare (decl : Decl) (symbol : Symbol) :
    Takes SameHeader (declare decl symbol) := by
  rw [declare_eq]
  refine Takes.bind (fun _ => .single rfl) fun ref => ?_
  by_cases hnothing : symbol.type = .nothing
  · simp only [if_pos hnothing]
    exact (sameHeader_report _ _ _).bind fun _ => sameHeader_bindAt _ _ _
  · simp only [if_neg hnothing]
    exact sameHeader_bindAt _ _ _

theorem sameHeader_declareData (decl : Decl) : Takes SameHeader (declareData decl) :=
  (Takes.lift _).bind fun _ => sameHeader_declare _ _

theorem sameHeader_openScope (node : String) : Takes SameHeader (openScope node) := by
  unfold openScope createScope
  refine Takes.bind (fun _ => .single rfl) fun ref => ?_
  exact .look fun _ => .single rfl

/-! ## Binding the symbol of a declaration -/

/-- A declaration goes through where a scope is active and its node has no symbol yet. -/
structure Ready (s : Pass) (node : NodeId) : Prop where
  active : s.stack.active.isSome
  empty : s.store.notes.symbols.get node = none

theorem bindAt_run_ready {s : Pass} {node : NodeId} (h : s.Ready node) (ref : SymbolRef)
    (subject : Subject) : ∃ bound t, (bindAt node ref subject).run s = .ok bound t := by
  obtain ⟨scope, hscope⟩ := Option.isSome_iff_exists.mp h.active
  cases hfind : s.store.find? scope (s.store.symbol ref).name with
  | none =>
    obtain ⟨log, hrun⟩ := bindAt_run_free subject hscope hfind h.empty
    exact ⟨_, _, hrun⟩
  | some old =>
    obtain ⟨log, hrun⟩ := bindAt_run_taken node subject hscope hfind
    exact ⟨_, _, hrun⟩

/-- A symbol that was bound is the one recorded under the node. -/
theorem bindAt_bound {s t : Pass} {node : NodeId} {ref r : SymbolRef} {subject : Subject}
    (hrun : (bindAt node ref subject).run s = .ok (some r) t) :
    r = ref ∧ t.store.notes.symbols.get node = some ref ∧
      t.store.symbols.size = s.store.symbols.size := by
  cases hscope : s.stack.active with
  | none =>
    simp only [bindAt, activeScope, EStateM.run_bind, EStateM.run_get, hscope] at hrun
    cases hrun
  | some scope =>
    cases hfind : s.store.find? scope (s.store.symbol ref).name with
    | some old =>
      obtain ⟨log, htaken⟩ := bindAt_run_taken node subject hscope hfind
      cases htaken.symm.trans hrun
    | none =>
      cases hcell : s.store.notes.symbols.get node with
      | none =>
        obtain ⟨log, hfree⟩ := bindAt_run_free subject hscope hfind hcell
        cases hfree.symm.trans hrun
        exact ⟨rfl, (Cells.get_put _ _ _ _).trans (if_pos rfl), rfl⟩
      | some old =>
        simp only [bindAt, bind, note, recordSymbol, record, EStateM.run_bind,
          activeScope_run hscope, EStateM.run_get, hfind, EStateM.run_modify, EStateM.run_pure] at hrun
        rw [Annotations.fillSymbol_taken _ (by exact hcell)] at hrun
        cases hrun

theorem declare_run_ready {s : Pass} {decl : Decl} (h : s.Ready decl.id) (symbol : Symbol) :
    ∃ bound t, (declare decl symbol).run s = .ok bound t := by
  have hmake : (makeSymbol symbol).run s
      = .ok s.store.symbols.size (s.storing (s.store.addSymbol symbol)) := rfl
  simp only [declare_eq, EStateM.run_bind, hmake]
  by_cases hnothing : symbol.type = .nothing
  · obtain ⟨log, hreport⟩ := report_run (s.storing (s.store.addSymbol symbol)) .error
      symbol.position (.semantic (.nothingData symbol.name))
    rw [if_pos hnothing, EStateM.run_bind, reportError, hreport]
    refine bindAt_run_ready ?_ _ _
    exact ⟨h.active, h.empty⟩
  · rw [if_neg hnothing]
    refine bindAt_run_ready ?_ _ _
    exact ⟨h.active, h.empty⟩

/-! ## What each of the calls does to the open signature -/

theorem typeNamed_failed {token : Token} (h : token.type? = none) (s : Pass) :
    (ofExcept (typeNamed token) : PassM Ty).run s
      = .error (.notATypeName token.raw token.position) s := by
  simp only [typeNamed, h]
  rfl

theorem declareData_run_ready {s : Pass} {d : Decl} (h : s.Ready d.id) (ht : d.type.type?.isSome) :
    ∃ bound t, (declareData d).run s = .ok bound t := by
  simp only [declareData, EStateM.run_bind, Outline.typeNamed_run d.type ht]
  exact declare_run_ready h _

/-- With a signature open, the type of a parameter is added to it before anything else. -/
theorem declareParam_run {s : Pass} {d : Decl} {signature : Signature} (h : s.header = some signature)
    (ht : d.type.type?.isSome) :
    (declareParam d).run s = (declare d (.ofParam d d.type.named)).run
      (s.heading (some { signature with params := signature.params ++ [d.type.named] })) := by
  simp only [declareParam, EStateM.run_bind, Outline.typeNamed_run d.type ht, EStateM.run_get, h]
  rfl

theorem declareParam_run_none {s : Pass} {d : Decl} (h : s.header = none) (ht : d.type.type?.isSome) :
    (declareParam d).run s = .error (.missingSignature d.name.name) s := by
  simp only [declareParam, EStateM.run_bind, Outline.typeNamed_run d.type ht, EStateM.run_get, h]
  rfl

theorem declareParam_run_unnamed (s : Pass) {d : Decl} (ht : d.type.type? = none) :
    (declareParam d).run s = .error (.notATypeName d.type.raw d.type.position) s := by
  simp only [declareParam, EStateM.run_bind, typeNamed_failed ht]

theorem declareFunction_run_nested {s : Pass} (f : Function) {unfinished : Signature}
    (h : s.header = some unfinished) :
    (declareFunction f).run s = .error (.nestedSignature f.name.name unfinished.name) s := by
  simp only [declareFunction, EStateM.run_bind, EStateM.run_get, h]
  rfl

theorem declareFunction_run_unnamed {s : Pass} {f : Function} (h : s.header = none)
    (ht : f.returns.type? = none) :
    (declareFunction f).run s = .error (.notATypeName f.returns.raw f.returns.position) s := by
  rw [declareFunction_eq f h]
  simp only [EStateM.run_bind, typeNamed_failed ht]

/-- With no signature open, a function that is declared opens one once its name was dealt with. -/
theorem declareFunction_run {s : Pass} {f : Function} (h : s.header = none)
    (ht : f.returns.type?.isSome) : (declareFunction f).run s = (do
      let bound ← bindAt f.id s.store.symbols.size (.function f.name.name)
      modify fun p => { p with
        header := some { returns := f.returns.named, name := f.name.name, params := [] } }
      return bound : PassM (Option SymbolRef)).run
        (s.storing (s.store.addSymbol (.ofFunction f f.returns.named))) := by
  rw [declareFunction_eq f h, EStateM.run_bind, Outline.typeNamed_run f.returns ht]
  rfl

theorem declareFunction_ok {s t : Pass} {f : Function} {bound : Option SymbolRef}
    (hrun : (declareFunction f).run s = .ok bound t) :
    s.header = none ∧ f.returns.type?.isSome ∧
      t.header = some { returns := f.returns.named, name := f.name.name, params := [] } ∧
      ∀ ref, bound = some ref →
        t.store.notes.symbols.get f.id = some ref ∧ ref < t.store.symbols.size := by
  cases hheader : s.header with
  | some unfinished => cases (declareFunction_run_nested f hheader).symm.trans hrun
  | none =>
    by_cases ht : f.returns.type?.isSome
    · rw [declareFunction_run hheader ht] at hrun
      obtain ⟨_, u, hbind, hrun⟩ := bind_ok.mp hrun
      cases hrun
      refine ⟨rfl, ht, rfl, ?_⟩
      rintro r rfl
      obtain ⟨rfl, hcell, hsize⟩ := bindAt_bound hbind
      refine ⟨hcell, ?_⟩
      show s.store.symbols.size < u.store.symbols.size
      rw [hsize]
      exact Nat.lt_of_lt_of_eq (Nat.lt_succ_self _) (Store.size_addSymbol _ _).symm
    · rw [Option.not_isSome_iff_eq_none] at ht
      cases (declareFunction_run_unnamed hheader ht).symm.trans hrun

/-- A function that could not be declared has opened nothing. -/
theorem header_of_declareFunction_error {s t : Pass} {f : Function} {e : InternalError}
    (hrun : (declareFunction f).run s = .error e t) : t.header = s.header := by
  cases hheader : s.header with
  | some unfinished =>
    cases (declareFunction_run_nested f hheader).symm.trans hrun
    exact hheader
  | none =>
    by_cases ht : f.returns.type?.isSome
    · rw [declareFunction_run hheader ht, EStateM.run_bind] at hrun
      have hsame := (sameHeader_bindAt f.id s.store.symbols.size (.function f.name.name)).header_after
        (s.storing (s.store.addSymbol (.ofFunction f f.returns.named)))
      -- Only the binding can have failed, and then the signature was not opened yet.
      generalize (bindAt f.id s.store.symbols.size (.function f.name.name)).run _ = r at hrun hsame
      cases r with
      | ok bound u => cases hrun
      | error e u =>
        cases hrun
        exact hsame.trans hheader
    · rw [Option.not_isSome_iff_eq_none] at ht
      cases (declareFunction_run_unnamed hheader ht).symm.trans hrun
      exact hheader

/-- The store once a function and its symbol, if it has one, were signed. -/
def signedStore (s : Pass) (f : Function) (signature : Signature) : Store :=
  let noted := s.store.annotate (s.store.notes.withSignature f.id signature)
  match s.store.notes.symbols.get f.id with
  | none => noted
  | some ref => noted.modifySymbol ref fun x => { x with signature := some signature }

/-- Neither the function nor its symbol has a signature. -/
structure Unsigned (s : Pass) (f : Function) : Prop where
  cell : s.store.notes.signatures.get f.id = none
  symbol : ∀ ref, s.store.notes.symbols.get f.id = some ref → (s.store.symbol ref).signature = none

theorem finishSignature_run_none {s : Pass} (f : Function) (h : s.header = none) :
    (finishSignature f).run s = .error (.missingSignature f.name.name) s := by
  simp only [finishSignature, EStateM.run_bind, EStateM.run_get, h]
  rfl

theorem signSymbol_run {s : Pass} {ref : SymbolRef} (signature : Signature) (subject : Subject)
    (h : (s.store.symbol ref).signature = none) : (signSymbol ref signature subject).run s
      = .ok () (s.changing ref fun x => { x with signature := some signature }) := by
  simp only [signSymbol, EStateM.run_bind, EStateM.run_get, h, Option.isSome_none, Bool.false_eq_true,
    if_false]
  rfl

theorem signSymbol_run_signed {s : Pass} {ref : SymbolRef} (signature : Signature) (subject : Subject)
    (h : (s.store.symbol ref).signature ≠ none) :
    (signSymbol ref signature subject).run s = .error (.reannotated subject) s := by
  simp only [signSymbol, EStateM.run_bind, EStateM.run_get, Option.isSome_iff_ne_none.mpr h, if_true]
  rfl

theorem finishSignature_run {s : Pass} {f : Function} {signature : Signature}
    (h : s.header = some signature) (hu : s.Unsigned f) :
    ∃ log, (finishSignature f).run s
      = .ok () (((s.heading none).storing (s.signedStore f signature)).logged log) := by
  have hrecord : (recordSignature f.id signature (.signatureOf f.name.name)).run
      { s with header := none, log := s.log.push (.signed signature) } = _ :=
    record_run (Annotations.fillSignature_eq signature hu.cell)
  simp only [finishSignature, note, EStateM.run_bind, EStateM.run_get, h, EStateM.run_modify, hrecord,
    symbolOf, EStateM.run_pure]
  refine ⟨s.log.push (.signed signature), ?_⟩
  unfold signedStore
  cases hcell : s.store.notes.symbols.get f.id with
  | none =>
    have hslot : (s.store.notes.withSignature f.id signature).symbols.get f.id = none := hcell
    simp only [storing, Store.notes_annotate, hslot]
    rfl
  | some ref =>
    have hslot : (s.store.notes.withSignature f.id signature).symbols.get f.id = some ref := hcell
    simp only [storing, Store.notes_annotate, hslot]
    refine signSymbol_run _ _ ?_
    exact hu.symbol ref hcell

/-- A signature that cannot be stored is closed all the same. -/
theorem finishSignature_run_signed {s : Pass} {f : Function} {signature : Signature}
    (h : s.header = some signature) (hu : ¬ s.Unsigned f) :
    ∃ t, (finishSignature f).run s = .error (.reannotated (.signatureOf f.name.name)) t ∧
      t.header = none := by
  cases hcell : s.store.notes.signatures.get f.id with
  | some old =>
    simp only [finishSignature, note, EStateM.run_bind, EStateM.run_get, h, EStateM.run_modify,
      recordSignature, record]
    rw [Annotations.fillSignature_taken _ (by exact hcell)]
    exact ⟨_, rfl, rfl⟩
  | none =>
    -- Then it is the symbol that has one.
    have hsymbol : ∃ ref, s.store.notes.symbols.get f.id = some ref ∧
        (s.store.symbol ref).signature ≠ none := by
      refine Classical.byContradiction fun hnone => hu ⟨hcell, fun ref href => ?_⟩
      exact Classical.byContradiction fun hsigned => hnone ⟨ref, href, hsigned⟩
    obtain ⟨ref, href, hsigned⟩ := hsymbol
    have hrecord : (recordSignature f.id signature (.signatureOf f.name.name)).run
        { s with header := none, log := s.log.push (.signed signature) } = _ :=
      record_run (Annotations.fillSignature_eq signature hcell)
    have hslot : (s.store.notes.withSignature f.id signature).symbols.get f.id = some ref := href
    simp only [finishSignature, note, EStateM.run_bind, EStateM.run_get, h, EStateM.run_modify,
      hrecord, symbolOf, EStateM.run_pure, storing, Store.notes_annotate, hslot]
    exact ⟨_, signSymbol_run_signed _ _ hsigned, rfl⟩

theorem finishSignature_ok {s t : Pass} {f : Function} (hrun : (finishSignature f).run s = .ok () t) :
    ∃ signature, s.header = some signature ∧ s.Unsigned f ∧ t.store = s.signedStore f signature := by
  cases h : s.header with
  | none => cases (finishSignature_run_none f h).symm.trans hrun
  | some signature =>
    by_cases hu : s.Unsigned f
    · obtain ⟨log, hok⟩ := finishSignature_run h hu
      cases hok.symm.trans hrun
      exact ⟨signature, rfl, hu, rfl⟩
    · obtain ⟨u, hfailed, -⟩ := finishSignature_run_signed h hu
      cases hfailed.symm.trans hrun

theorem header_finishSignature (s : Pass) (f : Function) :
    (after ((finishSignature f).run s)).header = none := by
  cases h : s.header with
  | none =>
    rw [finishSignature_run_none f h]
    exact h
  | some signature =>
    by_cases hu : s.Unsigned f
    · obtain ⟨log, hok⟩ := finishSignature_run h hu
      rw [hok]
      rfl
    · obtain ⟨u, hfailed, hheader⟩ := finishSignature_run_signed h hu
      rw [hfailed]
      exact hheader

theorem signedStore_signatures (s : Pass) (f : Function) (signature : Signature) :
    (s.signedStore f signature).notes.signatures.get f.id = some signature := by
  unfold signedStore
  cases s.store.notes.symbols.get f.id with
  | none => exact (Cells.get_put _ _ _ _).trans (if_pos rfl)
  | some ref => exact (Cells.get_put _ _ _ _).trans (if_pos rfl)

theorem signedStore_symbol {s : Pass} {f : Function} {ref : SymbolRef} (signature : Signature)
    (h : s.store.notes.symbols.get f.id = some ref) (hlt : ref < s.store.symbols.size) :
    ((s.signedStore f signature).symbol ref).signature = some signature := by
  unfold signedStore
  rw [h]
  dsimp only
  rw [Store.symbol_modifySymbol_eq, if_pos ⟨rfl, hlt⟩]

theorem after_discard (x : PassM α) (s : Pass) :
    after ((discard x : PassM Unit).run s) = after (x.run s) := by
  show after ((x >>= fun _ => pure ()).run s) = _
  rw [EStateM.run_bind]
  cases x.run s with
  | ok a t => rfl
  | error e t => rfl

/-! ## Which calls go through -/

theorem declareParam_ok_iff {s : Pass} {d : Decl} (h : s.Ready d.id) (ht : d.type.type?.isSome) :
    (∃ bound t, (declareParam d).run s = .ok bound t) ↔ s.header.isSome := by
  cases hheader : s.header with
  | none =>
    rw [declareParam_run_none hheader ht]
    simp
  | some signature =>
    rw [declareParam_run hheader ht]
    have hready : (s.heading (some { signature with
      params := signature.params ++ [d.type.named] })).Ready d.id := ⟨h.active, h.empty⟩
    simpa using declare_run_ready hready _

theorem declareParam_missing_iff {s : Pass} {d : Decl} (h : s.Ready d.id)
    (ht : d.type.type?.isSome) :
    failure? ((declareParam d).run s) = some (.missingSignature d.name.name) ↔ s.header = none := by
  cases hheader : s.header with
  | none =>
    rw [declareParam_run_none hheader ht]
    exact iff_of_true rfl rfl
  | some signature =>
    obtain ⟨bound, t, hrun⟩ := (declareParam_ok_iff h ht).mpr (by rw [hheader]; rfl)
    rw [hrun]
    exact iff_of_false nofun nofun

theorem declareFunction_ok_iff {s : Pass} {f : Function} (h : s.Ready f.id)
    (ht : f.returns.type?.isSome) :
    (∃ bound t, (declareFunction f).run s = .ok bound t) ↔ s.header = none := by
  constructor
  · rintro ⟨bound, t, hrun⟩
    exact (declareFunction_ok hrun).1
  · intro hheader
    have hready : (s.storing (s.store.addSymbol (.ofFunction f f.returns.named))).Ready f.id :=
      ⟨h.active, h.empty⟩
    obtain ⟨bound, t, hbind⟩ := bindAt_run_ready hready s.store.symbols.size (.function f.name.name)
    rw [declareFunction_run hheader ht]
    exact ⟨bound, _, bind_ok.mpr ⟨bound, t, hbind, rfl⟩⟩

theorem declareFunction_nested_iff {s : Pass} {f : Function} (h : s.Ready f.id)
    (ht : f.returns.type?.isSome) (other : String) :
    failure? ((declareFunction f).run s) = some (.nestedSignature f.name.name other) ↔
      ∃ signature, s.header = some signature ∧ signature.name = other := by
  cases hheader : s.header with
  | none =>
    obtain ⟨bound, t, hrun⟩ := (declareFunction_ok_iff h ht).mpr hheader
    rw [hrun]
    exact iff_of_false nofun (by rintro ⟨_, ⟨⟩, _⟩)
  | some signature =>
    rw [declareFunction_run_nested f hheader]
    simp [failure?]

theorem finishSignature_ok_iff {s : Pass} (f : Function) :
    (∃ t, (finishSignature f).run s = .ok () t) ↔ s.header.isSome ∧ s.Unsigned f := by
  constructor
  · rintro ⟨t, hrun⟩
    obtain ⟨signature, hheader, hu, -⟩ := finishSignature_ok hrun
    exact ⟨by rw [hheader]; rfl, hu⟩
  · rintro ⟨hsome, hu⟩
    obtain ⟨signature, hheader⟩ := Option.isSome_iff_exists.mp hsome
    obtain ⟨log, hrun⟩ := finishSignature_run hheader hu
    exact ⟨_, hrun⟩

theorem finishSignature_missing_iff {s : Pass} (f : Function) :
    failure? ((finishSignature f).run s) = some (.missingSignature f.name.name) ↔
      s.header = none := by
  cases hheader : s.header with
  | none =>
    rw [finishSignature_run_none f hheader]
    exact iff_of_true rfl rfl
  | some signature =>
    by_cases hu : s.Unsigned f
    · obtain ⟨log, hrun⟩ := finishSignature_run hheader hu
      rw [hrun]
      exact iff_of_false nofun nofun
    · obtain ⟨t, hrun, -⟩ := finishSignature_run_signed hheader hu
      rw [hrun]
      exact iff_of_false nofun nofun

end Pass

end Semant
