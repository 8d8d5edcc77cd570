import Semant.Proofs.Outline.Orderly
import Semant.Proofs.Outline.Simulation
import Semant.Proofs.Placement

/-!
# A whole check

One event was the matter of `Semant.Proofs.Outline.Simulation`; here events follow each other. A run
over events that come where they are expected either takes all of them, and then ends in the state
that the outline describes, or stops at the first literal that has no type. There is no third way
for it to go.

`Pass.journal` writes down what a run reports at each event, as opposed to all of it in one list.
Statements about the report of *one* node need this, since two nodes may well stand at the same
place.
-/

set_option autoImplicit false

namespace Semant

/-- What a run reports, event by event, as long as it goes on. -/
def Pass.journal (s : Pass) : List Event → List (Event × Diagnostics)
  | [] => []
  | event :: rest =>
    match (visit event).run s with
    | .ok _ next => (event, next.diagnostics.drop s.diagnostics.length) :: next.journal rest
    | .error _ _ => []

/-- What an analysis reports, event by event. -/
def Store.journal (store : Store) (p : Program) : List (Event × Diagnostics) :=
  (Pass.start store.notes.literals).journal p.events

namespace Outline

variable {o : Outline} {s : Pass}

/-- A literal without a type ends the check on the spot. -/
theorem Describes.visit_untyped (h : o.Describes s) {event : Event} {token : Token}
    (hl : event.untyped? o.literals = some token) :
    (Pass.visit event).run s = .error (.untypedLiteral token.raw token.position) s := by
  cases event with
  | exitLiteral e t =>
    cases e with
    | literal id written given =>
      simp only [Event.untyped?] at hl
      split at hl
      · rename_i hnone
        cases hl
        have ht : (o.typeOf (.literal id written given)).isNone = true := hnone
        simp only [Pass.visit, EStateM.run_bind, h.typeOf_run, ht]
        rfl
      · cases hl
    | _ => cases hl
  | _ => cases hl

/-- **A run over typed literals takes every event.** -/
theorem Describes.run_ok (h : o.Describes s) (hv : o.Valid) {events : List Event}
    (ho : o.Orderly events) (hl : events.findSome? (Event.untyped? o.literals) = none) :
    ∃ s', (forM events Pass.visit : PassM PUnit).run s = .ok ⟨⟩ s' ∧ (o.run events).Describes s' ∧
      s'.diagnostics = s.diagnostics ++ (o.journal events).flatMap Prod.snd ∧
      s.journal events = o.journal events := by
  induction events generalizing o s with
  | nil => exact ⟨s, rfl, h, by simp [journal], rfl⟩
  | cons event rest ih =>
    simp only [List.findSome?_cons] at hl
    cases hu : event.untyped? o.literals with
    | some token => simp [hu] at hl
    | none =>
      rw [hu] at hl
      obtain ⟨s₁, hrun, h₁, hds₁⟩ := h.visit_run hv ho.1 hu
      obtain ⟨s₂, hrest, h₂, hds₂, hj⟩ := ih h₁ (hv.step ho.1) ho.2 (by simpa using hl)
      refine ⟨s₂, ?_, h₂, ?_, ?_⟩
      · rw [List.forM_cons, EStateM.run_bind, hrun]
        exact hrest
      · simp [hds₂, hds₁, journal]
      · simp only [Pass.journal, hrun, hj, journal, hds₁, List.drop_left]

/-- **A run over an untyped literal stops there**, with its spelling and place. -/
theorem Describes.run_untyped (h : o.Describes s) (hv : o.Valid) {events : List Event}
    (ho : o.Orderly events) {token : Token}
    (hl : events.findSome? (Event.untyped? o.literals) = some token) :
    ∃ s', (forM events Pass.visit : PassM PUnit).run s
      = .error (.untypedLiteral token.raw token.position) s' := by
  induction events generalizing o s with
  | nil => cases hl
  | cons event rest ih =>
    simp only [List.findSome?_cons] at hl
    cases hu : event.untyped? o.literals with
    | some found =>
      rw [hu] at hl
      cases hl
      exact ⟨s, by rw [List.forM_cons, EStateM.run_bind, h.visit_untyped hu]⟩
    | none =>
      rw [hu] at hl
      obtain ⟨s₁, hrun, h₁, -⟩ := h.visit_run hv ho.1 hu
      obtain ⟨s₂, hrest⟩ := ih h₁ (hv.step ho.1) ho.2 (by simpa using hl)
      refine ⟨s₂, ?_⟩
      rw [List.forM_cons, EStateM.run_bind, hrun]
      exact hrest

end Outline

/-! ## Programs -/

/-- A check is a run over the events of the program, with a note before it. -/
theorem Pass.check_run (p : Program) (s : Pass) :
    (Pass.check p).run s = (forM p.events Pass.visit : PassM PUnit).run
      (s.logged (s.log.push (.cleared p.file p.clearedNodes))) := by
  rw [Pass.check, Program.walk_eq_forM]
  rfl

/-- A check that went through is a run that did, up to the log. -/
theorem Pass.run_of_check {p : Program} {literals : Cells Ty} {s : Pass}
    (h : (Pass.check p).run (Pass.start literals) = .ok () s) :
    ∃ log, (forM p.events Pass.visit : PassM PUnit).run ((Pass.start literals).logged log)
      = .ok ⟨⟩ s :=
  ⟨_, (Pass.check_run p _).symm.trans h⟩

/-- Every event of an orderly run came where it was expected. -/
theorem Outline.Orderly.permits {o : Outline} {events : List Event} (h : o.Orderly events) :
    ∀ event ∈ events, ∃ o' : Outline, o'.Permits event := by
  induction events generalizing o with
  | nil => simp
  | cons event rest ih =>
    intro ev hm
    rcases List.mem_cons.mp hm with rfl | hm
    · exact ⟨o, h.1⟩
    · exact ih h.2 ev hm

/-- No literal is untyped if each of them has a type where it is read. -/
theorem Program.untyped?_eq_none_iff {p : Program} (hn : p.nodes.Nodup)
    (ht : ∀ token ∈ p.typeNames, token.type?.isSome) (notes : Annotations) :
    p.untyped? notes.literals = none ↔
      ∀ e token, .exitLiteral e token ∈ p.events → (notes.typeOf e).isSome := by
  have hlit : ∀ e token, .exitLiteral e token ∈ p.events → e.isLiteral = true := by
    intro e token hm
    obtain ⟨o, ho⟩ := (p.orderly notes.literals hn ht).permits _ hm
    exact ho
  have hone : ∀ e token, e.isLiteral = true →
      ((Event.exitLiteral e token).untyped? notes.literals = none ↔ (notes.typeOf e).isSome) := by
    intro e token he
    cases e with
    | literal id t given =>
      simp only [Event.untyped?, Annotations.typeOf]
      cases given.or (notes.literals.get id) <;> simp
    | _ => cases he
  rw [Program.untyped?, List.findSome?_eq_none_iff]
  constructor
  · intro h e token hm
    exact (hone e token (hlit e token hm)).mp (h _ hm)
  · intro h event hm
    cases event with
    | exitLiteral e token => exact (hone e token (hlit e token hm)).mpr (h e token hm)
    | _ => rfl

section Check

variable {p : Program} {literals : Cells Ty} (hn : p.nodes.Nodup)
  (ht : ∀ token ∈ p.typeNames, token.type?.isSome)

include hn ht

theorem Pass.check_ok (hl : p.untyped? literals = none) :
    ∃ s, (Pass.check p).run (Pass.start literals) = .ok () s ∧
      ((Outline.start literals).run p.events).Describes s ∧
      s.diagnostics = ((Outline.start literals).journal p.events).flatMap Prod.snd := by
  have h := (Outline.Describes.start literals).logged
    ((Pass.start literals).log.push (.cleared p.file p.clearedNodes))
  obtain ⟨s, hrun, hs, hds, -⟩ :=
    h.run_ok (Outline.Valid.start literals) (p.orderly literals hn ht) hl
  exact ⟨s, (Pass.check_run p _).trans hrun, hs, hds⟩

theorem Pass.check_untyped {token : Token} (hl : p.untyped? literals = some token) :
    ∃ s, (Pass.check p).run (Pass.start literals)
      = .error (.untypedLiteral token.raw token.position) s := by
  have h := (Outline.Describes.start literals).logged
    ((Pass.start literals).log.push (.cleared p.file p.clearedNodes))
  obtain ⟨s, hrun⟩ := h.run_untyped (Outline.Valid.start literals) (p.orderly literals hn ht) hl
  exact ⟨s, (Pass.check_run p _).trans hrun⟩

/-- What is reported at each event of the check is what the outline says. -/
theorem Pass.journal_eq (hl : p.untyped? literals = none) :
    (Pass.start literals).journal p.events = (Outline.start literals).journal p.events := by
  obtain ⟨s, -, -, -, hj⟩ := (Outline.Describes.start literals).run_ok
    (Outline.Valid.start literals) (p.orderly literals hn ht) hl
  exact hj

theorem Store.analyze_ok {store : Store} (hl : p.untyped? store.notes.literals = none) :
    ∃ s, ((Outline.start store.notes.literals).run p.events).Describes s ∧
      s.diagnostics = ((Outline.start store.notes.literals).journal p.events).flatMap Prod.snd ∧
      store.analyze p =
        (.ok ((s.above store).findings p), store.grown p s.store) := by
  obtain ⟨s, hrun, hs, hds⟩ := Pass.check_ok hn ht hl
  refine ⟨s, hs, hds, ?_⟩
  rw [store.analyze_eq_link (p.literalsAgree_literals store.notes), hrun]

theorem Store.analyze_untyped {store : Store} {token : Token}
    (hl : p.untyped? store.notes.literals = some token) :
    (store.analyze p).1 = .error (.untypedLiteral token.raw token.position) := by
  obtain ⟨s, hrun⟩ := Pass.check_untyped hn ht hl
  rw [store.analyze_eq_link (p.literalsAgree_literals store.notes), hrun]

end Check

/-! ## Checks that went through

A check that goes through has looked at every type name and every literal, so what was assumed of
them above follows. -/

/-- A token that names no type stops the check. -/
theorem Pass.visit_unnamed {event : Event} {token : Token} (hm : token ∈ event.typeNames)
    (ht : token.type? = none) (s : Pass) : ∃ e s', (Pass.visit event).run s = .error e s' := by
  have hthrow : ∀ s : Pass, (ofExcept (typeNamed token) : PassM Ty).run s
      = .error (.notATypeName token.raw token.position) s := by
    intro s
    simp only [typeNamed, ht]
    rfl
  cases event with
  | enterDecl d =>
    cases List.mem_singleton.mp hm
    simp only [Pass.visit, Pass.declareData, EStateM.run_bind, hthrow]
    exact ⟨_, _, rfl⟩
  | enterParam f d =>
    cases List.mem_singleton.mp hm
    simp only [Pass.visit, Pass.declareParam, EStateM.run_bind, hthrow]
    exact ⟨_, _, rfl⟩
  | enterFunction f =>
    cases List.mem_singleton.mp hm
    simp only [Pass.visit, Pass.declareFunction, EStateM.run_bind, EStateM.run_get]
    cases s.header with
    | none =>
      simp only [EStateM.run_bind, hthrow]
      exact ⟨_, _, rfl⟩
    | some header => exact ⟨_, _, rfl⟩
  | exitCast e target operand =>
    cases List.mem_singleton.mp hm
    simp only [Pass.visit, EStateM.run_bind, hthrow]
    exact ⟨_, _, rfl⟩
  | _ => cases hm

theorem Pass.named_of_run {events : List Event} {s s' : Pass}
    (h : (forM events Pass.visit : PassM PUnit).run s = .ok ⟨⟩ s') :
    ∀ event ∈ events, ∀ token ∈ event.typeNames, token.type?.isSome := by
  induction events generalizing s with
  | nil => simp
  | cons event rest ih =>
    rw [List.forM_cons, EStateM.run_bind] at h
    intro ev hm token htoken
    cases hv : (Pass.visit event).run s with
    | error e s₁ =>
      rw [hv] at h
      cases h
    | ok u s₁ =>
      rw [hv] at h
      rcases List.mem_cons.mp hm with rfl | hm
      · cases ht : token.type? with
        | some type => rfl
        | none =>
          obtain ⟨e, s₂, hfail⟩ := Pass.visit_unnamed htoken ht s
          rw [hv] at hfail
          cases hfail
      · exact ih h ev hm token htoken

/-- **What is known once an analysis went through.** -/
theorem Store.analyze_inv {store after : Store} {p : Program} {a : Analysis} (hn : p.nodes.Nodup)
    (h : store.analyze p = (.ok a, after)) :
    (∀ token ∈ p.typeNames, token.type?.isSome) ∧ p.untyped? store.notes.literals = none ∧
      ∃ s, ((Outline.start store.notes.literals).run p.events).Describes s ∧
        a.diagnostics = ((Outline.start store.notes.literals).journal p.events).flatMap Prod.snd ∧
        after = store.grown p s.store := by
  have hcheck : ∃ s, (Pass.check p).run (Pass.start store.notes.literals) = .ok () s := by
    rw [store.analyze_eq_link (p.literalsAgree_literals store.notes)] at h
    cases hc : (Pass.check p).run (Pass.start store.notes.literals) with
    | ok u s => exact ⟨s, rfl⟩
    | error e s =>
      rw [hc] at h
      cases h
  have hnamed : ∀ token ∈ p.typeNames, token.type?.isSome := by
    obtain ⟨s, hs⟩ := hcheck
    obtain ⟨log, hrun⟩ := Pass.run_of_check hs
    intro token htoken
    obtain ⟨event, hm, ht⟩ := List.mem_flatMap.mp htoken
    exact Pass.named_of_run hrun event hm token ht
  -- With all types named there is only one way left in which the check can stop.
  have htyped : p.untyped? store.notes.literals = none := by
    cases hu : p.untyped? store.notes.literals with
    | none => rfl
    | some token =>
      have herr := Store.analyze_untyped hn hnamed hu
      rw [h] at herr
      cases herr
  obtain ⟨s, hs, hds, hok⟩ := Store.analyze_ok hn hnamed htyped
  rw [hok] at h
  cases h
  exact ⟨hnamed, htyped, s, hs, hds, rfl⟩

/-- An analysis that went through, with the state that the check from nothing ends in. -/
theorem Store.analyze_state {store after : Store} {p : Program} {a : Analysis} (hn : p.nodes.Nodup)
    (h : store.analyze p = (.ok a, after)) :
    ∃ s, (Pass.check p).run (Pass.start store.notes.literals) = .ok () s ∧
      ((Outline.start store.notes.literals).run p.events).Describes s ∧
      a = (s.above store).findings p ∧
      after = store.grown p s.store := by
  obtain ⟨ht, hl, -⟩ := Store.analyze_inv hn h
  obtain ⟨s, hrun, hs, -⟩ := Pass.check_ok hn ht hl
  rw [store.analyze_eq_link (p.literalsAgree_literals store.notes), hrun] at h
  cases h
  exact ⟨s, hrun, hs, rfl, rfl⟩

end Semant
