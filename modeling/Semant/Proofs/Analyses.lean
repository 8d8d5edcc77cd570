import Semant.Analysis
import Semant.Proofs.Changes

/-!
# From checks to analyses

An analysis is a check, and then a look at the state that the check left: which scope was opened first,
what was reported, and how many errors and warnings were counted. Two things have to be right for that.

The counters are kept beside the diagnostics and not computed from them. They agree because no change
touches one without the other (`Pass.Tallied`).

The look fails if no scope was ever opened. It does not come to that: a check begins by opening one, and
what was opened first stays first (`Pass.root_of_check`). So an analysis fails where its check fails and
nowhere else (`Store.analyze_eq`).
-/

set_option autoImplicit false

namespace Semant

@[simp]
theorem Diagnostics.errorCount_append (ds ds' : Diagnostics) :
    Diagnostics.errorCount (ds ++ ds') = ds.errorCount + ds'.errorCount := by
  simp [errorCount, ofSeverity]

@[simp]
theorem Diagnostics.warningCount_append (ds ds' : Diagnostics) :
    Diagnostics.warningCount (ds ++ ds') = ds.warningCount + ds'.warningCount := by
  simp [warningCount, ofSeverity]

namespace Pass

variable {room : Symbol → Prop} {s t : Pass}

/-- What every change keeps is kept by any number of them. -/
theorem invariant_of_alters {P : Pass → Prop}
    (hchange : ∀ {s t}, Change room s t → P s → P t) (hmove : ∀ {s t}, Move s t → P s → P t)
    (h : Relation.ReflTransGen (Alters room) s t) (hs : P s) : P t := by
  induction h with
  | refl => exact hs
  | tail _ hlast ih =>
    rcases hlast with hc | hm
    · exact hchange hc ih
    · exact hmove hm ih

/-! ## Counters -/

/-- As many errors and warnings were counted as reported. -/
structure Tallied (s : Pass) : Prop where
  errors : s.errorCount = s.diagnostics.errorCount
  warnings : s.warningCount = s.diagnostics.warningCount

theorem Tallied.reporting (h : s.Tallied) (ds : Diagnostics) : (s.reporting ds).Tallied where
  errors := by
    rw [Pass.reporting, h.errors, Diagnostics.errorCount_append]
  warnings := by
    rw [Pass.reporting, h.warnings, Diagnostics.warningCount_append]

theorem Change.tallied (h : Change room s t) (hs : s.Tallied) : t.Tallied := by
  cases h with
  | reporting ds => exact hs.reporting ds
  | _ => exact ⟨hs.errors, hs.warnings⟩

theorem Move.tallied (h : Move s t) (hs : s.Tallied) : t.Tallied := by
  cases h with
  | _ => exact ⟨hs.errors, hs.warnings⟩

/-- **The counters agree with the diagnostics** after any number of changes. -/
theorem tallied_of_alters (h : Relation.ReflTransGen (Alters room) s t) (hs : s.Tallied) :
    t.Tallied :=
  invariant_of_alters Change.tallied Move.tallied h hs

theorem tallied_of_check {p : Program} (h : (check p).run s = .ok () t) (hs : s.Tallied) :
    t.Tallied := by
  have halters := takes_check p s
  rw [h] at halters
  exact tallied_of_alters halters hs

/-! ## The first scope -/

theorem Change.root_eq (h : Change room s t) : t.stack.root = s.stack.root := by
  cases h with
  | _ => rfl

theorem Move.root_eq (h : Move s t) {root : ScopeRef} (hs : s.stack.root = some root) :
    t.stack.root = some root := by
  cases h with
  | opening =>
    show s.stack.root.or _ = _
    rw [hs]
    rfl
  | _ => exact hs

theorem root_of_alters {root : ScopeRef} (h : Relation.ReflTransGen (Alters room) s t)
    (hs : s.stack.root = some root) : t.stack.root = some root :=
  invariant_of_alters (fun hc hr => hc.root_eq.trans hr) (fun hm hr => hm.root_eq hr) h hs

/-- Once the program was entered a first scope is there. -/
theorem root_of_enterProgram {p : Program} (h : (visit (.enterProgram p)).run s = .ok () t) :
    ∃ root, t.stack.root = some root := by
  obtain ⟨scope, u, hopen, hrecord⟩ := bind_ok.mp h
  have hu : u.stack.root = s.stack.root.or (some s.store.scopes.size) := by
    cases hopen
    rfl
  obtain ⟨root, hroot⟩ : ∃ root, u.stack.root = some root := by
    rw [hu]
    cases s.stack.root with
    | none => exact ⟨_, rfl⟩
    | some root => exact ⟨root, rfl⟩
  have halters : Relation.ReflTransGen (Alters Symbol.Any) u _ :=
    takes_recordScope p.id scope (.program p.file) u
  rw [hrecord] at halters
  exact ⟨root, root_of_alters halters hroot⟩

/-- **A check that goes through leaves a first scope.** -/
theorem root_of_check {p : Program} (h : (check p).run s = .ok () t) :
    ∃ root, t.stack.root = some root := by
  rw [check, Program.walk_eq_forM] at h
  obtain ⟨_, s₁, -, h⟩ := bind_ok.mp h
  rw [Program.events, List.forM_cons] at h
  obtain ⟨_, s₂, henter, hrest⟩ := bind_ok.mp h
  obtain ⟨root, hroot⟩ := root_of_enterProgram henter
  have halters := Takes.forM takes_visit (p.items.flatMap Item.events ++ [.exitProgram p]) s₂
  rw [hrest] at halters
  exact ⟨root, root_of_alters halters hroot⟩

/-! ## Analyses -/

/-- What an analysis gathers from the state that a check left. There a first scope is always found
(`root_of_check`), so the place given for want of one is never that of an analysis. -/
def findings (s : Pass) (p : Program) : Analysis :=
  { program := p
    root := s.stack.root.getD 0
    stack := s.stack
    diagnostics := s.diagnostics
    errorCount := s.errorCount
    warningCount := s.warningCount }

theorem analyze_run (p : Program) (s : Pass) :
    (Pass.analyze p).run s = match (check p).run s with
      | .ok _ t => .ok (t.findings p)
          (t.logged (t.log.push (.analysed p.file t.errorCount t.warningCount)))
      | .error e t => .error e t := by
  rw [Pass.analyze, EStateM.run_bind]
  cases hc : (check p).run s with
  | error e t => rfl
  | ok u t =>
    obtain ⟨root, hroot⟩ := root_of_check hc
    have hlook : rootScope.run t = .ok root t := by
      rw [rootScope, EStateM.run_bind, EStateM.run_get]
      dsimp only
      rw [hroot]
      rfl
    dsimp only
    rw [EStateM.run_bind, hlook]
    have hfirst : root = t.stack.root.getD 0 := by rw [hroot, Option.getD_some]
    rw [hfirst]
    rfl

/-- The check of an analysis that went through. -/
theorem check_of_analyze {p : Program} {a : Analysis} (h : (Pass.analyze p).run s = .ok a t) :
    ∃ u log, (check p).run s = .ok () u ∧ a = u.findings p ∧ t = u.logged log := by
  rw [analyze_run] at h
  cases hc : (check p).run s with
  | error e u =>
    rw [hc] at h
    cases h
  | ok _ u =>
    rw [hc] at h
    cases h
    exact ⟨u, _, rfl, rfl, rfl⟩

/-- **The counters of an analysis count its diagnostics.** -/
theorem analyze_tallied {p : Program} {a : Analysis} (h : (Pass.analyze p).run s = .ok a t)
    (hs : s.Tallied) :
    a.errorCount = a.diagnostics.errorCount ∧ a.warningCount = a.diagnostics.warningCount := by
  obtain ⟨u, _, hc, rfl, -⟩ := check_of_analyze h
  have htallied := tallied_of_check hc hs
  exact ⟨htallied.errors, htallied.warnings⟩

end Pass

namespace Store

variable {store after : Store} {p : Program} {a : Analysis}

/-- **An analysis fails where its check fails**, and gathers what the check found where it does not. -/
theorem analyze_eq (store : Store) (p : Program) :
    store.analyze p = match (Pass.check p).run (store.checking p) with
      | .ok _ s => (.ok (s.findings p), s.store)
      | .error e s => (.error e, s.store) := by
  rw [analyze, Pass.analyze_run]
  cases (Pass.check p).run (store.checking p) with
  | ok u s => rfl
  | error e s => rfl

theorem run_of_analyze (h : store.analyze p = (.ok a, after)) :
    ∃ t, (Pass.analyze p).run (store.checking p) = .ok a t ∧ after = t.store := by
  rw [analyze] at h
  cases hr : (Pass.analyze p).run (store.checking p) with
  | error e t =>
    rw [hr] at h
    cases h
  | ok _ t =>
    rw [hr] at h
    cases h
    exact ⟨t, rfl, rfl⟩

theorem check_of_analyze (h : store.analyze p = (.ok a, after)) :
    ∃ s, (Pass.check p).run (store.checking p) = .ok () s ∧ a = s.findings p ∧ after = s.store := by
  obtain ⟨t, hrun, rfl⟩ := run_of_analyze h
  obtain ⟨s, log, hc, ha, rfl⟩ := Pass.check_of_analyze hrun
  exact ⟨s, hc, ha, rfl⟩

theorem analyze_tallied (h : store.analyze p = (.ok a, after)) :
    a.errorCount = a.diagnostics.errorCount ∧ a.warningCount = a.diagnostics.warningCount := by
  obtain ⟨t, hrun, -⟩ := run_of_analyze h
  exact Pass.analyze_tallied hrun ⟨rfl, rfl⟩

/-- **The root of an analysis is the first scope on its stack.** -/
theorem root_of_analyze (h : store.analyze p = (.ok a, after)) : a.stack.root = some a.root := by
  obtain ⟨s, hc, rfl, -⟩ := check_of_analyze h
  obtain ⟨root, hroot⟩ := Pass.root_of_check hc
  simp only [Pass.findings, hroot, Option.getD_some]

end Store

end Semant
