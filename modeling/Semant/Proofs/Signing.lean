import Mathlib.Data.List.Induction
import Semant.Proofs.Headers
import Semant.Proofs.History
import Semant.Proofs.Stacks
import Semant.Proofs.Traversal

/-!
# Signatures are those that were declared

Nothing forces anybody to make the calls that declare a function in the right order. This file says what
any sequence of them does, with scopes opened and left in between and with calls that fail.

There is an open signature as long as some function was declared with success and none was closed since
(`Pass.header_doing_iff`). It has the types of all parameters declared since then, whatever became of
their names. A check makes the calls in the right order, so each function of a program that was checked
has the signature that its declaration spells out, and has it before its body is checked
(`Pass.signed_of_header`).
-/

set_option autoImplicit false

namespace Semant

/-! ## Calls in any order -/

namespace Operation

/-- Whether the operation declares something or closes a signature. -/
def isDeclaring : Operation → Bool
  | declareData _ => true
  | declareParam _ => true
  | declareFunction _ => true
  | finishSignature _ => true
  | _ => false

/-- What the operation adds to an open signature. -/
def params : Operation → List Ty
  | declareParam d => d.type.type?.toList
  | _ => []

end Operation

/-- The signature that a function has got once these calls were made since it was declared. -/
def Function.heading (f : Function) (since : List Operation) : Signature :=
  { returns := f.returns.named, name := f.name.name, params := since.flatMap Operation.params }

namespace Operation

variable {op : Operation} {s : Pass}

theorem header_apply_move (hmove : op.isMove = true) : (op.apply s).header = s.header := by
  by_cases hopens : op = .createScope
  · subst hopens
    rfl
  · obtain ⟨stack, log, hafter⟩ := op.apply_eq_of_isMove s hmove hopens
    rw [hafter]

theorem apply_declareData (d : Decl) :
    (declareData d).apply s = Pass.after ((Pass.declareData d).run s) :=
  Pass.after_discard _ s

theorem apply_declareParam (d : Decl) :
    (declareParam d).apply s = Pass.after ((Pass.declareParam d).run s) :=
  Pass.after_discard _ s

theorem apply_declareFunction (f : Function) :
    (declareFunction f).apply s = Pass.after ((Pass.declareFunction f).run s) :=
  Pass.after_discard _ s

theorem header_apply_declareData (d : Decl) : ((declareData d).apply s).header = s.header := by
  rw [apply_declareData, (Pass.sameHeader_declareData d).header_after]

theorem params_of_isMove (hmove : op.isMove = true) : op.params = [] := by
  cases op with
  | declareParam d => cases hmove
  | _ => rfl

/-- **An open signature stays open** until it is closed, and grows by the parameters that are
declared. -/
theorem header_apply_open {signature : Signature} (hop : op.isMove = true ∨ op.isDeclaring = true)
    (hopen : ∀ f, op ≠ .finishSignature f) (h : s.header = some signature) :
    (op.apply s).header = some { signature with params := signature.params ++ op.params } := by
  by_cases hmove : op.isMove = true
  · rw [header_apply_move hmove, h, params_of_isMove hmove, List.append_nil]
  · have hdeclares := hop.resolve_left hmove
    cases op with
    | declareData d =>
      rw [header_apply_declareData, h]
      exact congrArg (fun params => some { signature with params }) (List.append_nil _).symm
    | declareParam d =>
      rw [apply_declareParam]
      cases ht : d.type.type? with
      | none =>
        rw [Pass.declareParam_run_unnamed s ht]
        simp [params, ht, Pass.after, h]
      | some type =>
        rw [Pass.declareParam_run h (by rw [ht]; rfl), (Pass.sameHeader_declare _ _).header_after]
        simp [Pass.heading, params, Token.named, ht]
    | declareFunction f =>
      rw [apply_declareFunction, Pass.declareFunction_run_nested f h]
      simp [Pass.after, h, params]
    | finishSignature f => exact absurd rfl (hopen f)
    | _ => cases hdeclares

/-- A signature is opened by a function that is declared, and by nothing else. -/
theorem header_apply_closed {signature : Signature}
    (hop : op.isMove = true ∨ op.isDeclaring = true) (h : s.header = none)
    (hafter : (op.apply s).header = some signature) :
    ∃ f bound t, op = .declareFunction f ∧ (Pass.declareFunction f).run s = .ok bound t ∧
      signature = f.heading [] := by
  by_cases hmove : op.isMove = true
  · rw [header_apply_move hmove, h] at hafter
    cases hafter
  · have hdeclares := hop.resolve_left hmove
    -- without an open signature a parameter is refused, whatever is wrong with it besides
    cases op with
    | declareData d =>
      rw [header_apply_declareData, h] at hafter
      cases hafter
    | declareParam d =>
      rw [apply_declareParam] at hafter
      cases ht : d.type.type? with
      | none =>
        rw [Pass.declareParam_run_unnamed s ht] at hafter
        cases h.symm.trans hafter
      | some type =>
        rw [Pass.declareParam_run_none h (by rw [ht]; rfl)] at hafter
        cases h.symm.trans hafter
    | declareFunction f =>
      rw [apply_declareFunction] at hafter
      cases hrun : (Pass.declareFunction f).run s with
      | ok bound t =>
        rw [hrun] at hafter
        obtain ⟨-, -, hheader, -⟩ := Pass.declareFunction_ok hrun
        exact ⟨f, bound, t, rfl, hrun, Option.some.inj (hafter.symm.trans hheader)⟩
      | error e t =>
        rw [hrun] at hafter
        cases (h.symm.trans (Pass.header_of_declareFunction_error hrun).symm).trans hafter
    | finishSignature f =>
      cases (Pass.header_finishSignature s f).symm.trans hafter
    | _ => cases hdeclares

end Operation

namespace Pass

/-- The state after some operations, one after the other. Those that fail are not made up for. -/
def doing (s : Pass) (ops : List Operation) : Pass := ops.foldl (fun s op => op.apply s) s

theorem doing_append (s : Pass) (ops more : List Operation) :
    s.doing (ops ++ more) = (s.doing ops).doing more :=
  List.foldl_append

/-- Among some calls, one declared the function with success, and those since then closed nothing. -/
def OpenedBy (s : Pass) (calls : List Operation) (f : Function) (since : List Operation) : Prop :=
  ∃ before bound t, calls = before ++ .declareFunction f :: since ∧
    (declareFunction f).run (s.doing before) = .ok bound t ∧ ∀ g, .finishSignature g ∉ since

/-- Some function was declared with success, and nothing was closed since. -/
def SomeOpen (s : Pass) (calls : List Operation) : Prop := ∃ f since, s.OpenedBy calls f since

/-- While nothing is closed, an open signature gathers the parameters of all calls. -/
theorem header_doing_open {since : List Operation} {s : Pass} {signature : Signature}
    (hcalls : ∀ op ∈ since, op.isMove = true ∨ op.isDeclaring = true)
    (hopen : ∀ g, .finishSignature g ∉ since) (h : s.header = some signature) :
    (s.doing since).header
      = some { signature with params := signature.params ++ since.flatMap Operation.params } := by
  induction since generalizing s signature with
  | nil =>
    rw [List.flatMap_nil, List.append_nil]
    exact h
  | cons op rest ih =>
    have hfirst := Operation.header_apply_open (hcalls op List.mem_cons_self)
      (fun g hg => hopen g (hg ▸ List.mem_cons_self)) h
    have hrest := ih (fun o ho => hcalls o (List.mem_cons_of_mem _ ho))
      (fun g hg => hopen g (List.mem_cons_of_mem _ hg)) hfirst
    rw [List.flatMap_cons, ← List.append_assoc]
    exact hrest

/-- **A signature is open exactly if a function was declared and nothing was closed since.** -/
theorem header_doing_iff {s : Pass} {calls : List Operation} {signature : Signature}
    (hs : s.header = none) (hcalls : ∀ op ∈ calls, op.isMove = true ∨ op.isDeclaring = true) :
    (s.doing calls).header = some signature ↔
      ∃ f since, s.OpenedBy calls f since ∧ signature = f.heading since := by
  constructor
  · -- The last call opened the signature, or it was open before.
    intro hheader
    induction calls using List.reverseRecOn generalizing signature with
    | nil => cases hs.symm.trans hheader
    | append_singleton calls op ih =>
      have hop := hcalls op (List.mem_append_right _ (List.mem_singleton_self _))
      rw [doing_append] at hheader
      cases hbefore : (s.doing calls).header with
      | none =>
        obtain ⟨f, bound, t, rfl, hrun, hsig⟩ := Operation.header_apply_closed hop hbefore hheader
        exact ⟨f, [], ⟨calls, bound, t, rfl, hrun, fun _ => List.not_mem_nil⟩, hsig⟩
      | some old =>
        -- closing would have left no signature
        have hopen : ∀ g, op ≠ .finishSignature g := by
          rintro g rfl
          cases (header_finishSignature _ g).symm.trans hheader
        obtain ⟨f, since, ⟨before, bound, t, rfl, hrun, hnone⟩, rfl⟩ :=
          ih (fun o ho => hcalls o (List.mem_append_left _ ho)) hbefore
        refine ⟨f, since ++ [op], ⟨before, bound, t, ?_, hrun, ?_⟩, ?_⟩
        · rw [List.append_assoc, List.cons_append]
        · intro g hg
          rcases List.mem_append.mp hg with hg | hg
          · exact hnone g hg
          · exact hopen g (List.mem_singleton.mp hg).symm
        · have hlast := Operation.header_apply_open hop hopen hbefore
          have hsig := Option.some.inj (hheader.symm.trans hlast)
          rw [hsig, Function.heading, Function.heading, List.flatMap_append, List.flatMap_singleton]
  · rintro ⟨f, since, ⟨before, bound, t, rfl, hrun, hnone⟩, rfl⟩
    obtain ⟨-, -, hopened, -⟩ := declareFunction_ok hrun
    have hstep : s.doing (before ++ .declareFunction f :: since) = t.doing since := by
      rw [doing_append]
      show (Operation.apply (.declareFunction f) (s.doing before)).doing since = _
      rw [Operation.apply_declareFunction, hrun]
      rfl
    rw [hstep]
    exact header_doing_open (fun op ho => hcalls op (by simp [ho])) hnone hopened

theorem isSome_header_doing_iff {s : Pass} {calls : List Operation} (hs : s.header = none)
    (hcalls : ∀ op ∈ calls, op.isMove = true ∨ op.isDeclaring = true) :
    (s.doing calls).header.isSome ↔ s.SomeOpen calls := by
  rw [Option.isSome_iff_exists]
  constructor
  · rintro ⟨signature, hheader⟩
    obtain ⟨f, since, hby, -⟩ := (header_doing_iff hs hcalls).mp hheader
    exact ⟨f, since, hby⟩
  · rintro ⟨f, since, hby⟩
    exact ⟨_, (header_doing_iff hs hcalls).mpr ⟨f, since, hby, rfl⟩⟩

end Pass

/-! ## Checks -/

/-- Wherever a function stands in a program, its events stand together. -/
theorem Program.exists_events_of_mem {p : Program} {f : Function} (h : .function f ∈ p.items) :
    ∃ before rest, p.events = before ++ f.events ++ rest := by
  obtain ⟨front, back, hitems⟩ := List.mem_iff_append.mp h
  refine ⟨.enterProgram p :: front.flatMap Item.events,
    back.flatMap Item.events ++ [.exitProgram p], ?_⟩
  simp [Program.events, hitems, Item.events]

theorem Succeeds.append_iff {ε σ : Type} {visit : Event → EStateM ε σ Unit} {s u : σ}
    {first rest : List Event} : Succeeds visit s (first ++ rest) u ↔
      ∃ t, Succeeds visit s first t ∧ Succeeds visit t rest u := by
  constructor
  · intro h
    induction first generalizing s with
    | nil => exact ⟨s, .nil, h⟩
    | cons event more ih =>
      cases h with
      | cons hevent hmore =>
        obtain ⟨t, hfirst, hrest⟩ := ih hmore
        exact ⟨t, .cons hevent hfirst, hrest⟩
  · rintro ⟨t, hfirst, hrest⟩
    induction hfirst with
    | nil => exact hrest
    | cons hevent _ ih => exact .cons hevent (ih hrest)

namespace Pass

theorem retains_of_alters {room : Symbol → Prop} {s t : Pass}
    (h : Relation.ReflTransGen (Alters room) s t) :
    s.store.notes.Retains t.store.notes := by
  induction h with
  | refl => exact .refl _
  | tail _ hlast ih =>
    refine ih.trans ?_
    rcases hlast with hchange | hmove
    · cases hchange with
      | noting notes scopes retained => exact retained
      | _ => exact .refl _
    · cases hmove with
      | recording node scope empty => exact ⟨fun _ _ => id, fun _ _ => id⟩
      | _ => exact .refl _

theorem alters_of_succeeds {s t : Pass} {events : List Event} (h : Succeeds visit s events t) :
    Relation.ReflTransGen (Alters Symbol.Any) s t := by
  induction h with
  | nil => exact .refl
  | @cons s t u event rest hevent _ ih =>
    have hfirst := takes_visit event s
    rw [show (visit event).run s = _ from hevent] at hfirst
    exact hfirst.trans ih

theorem takes_openFunction (f : Function) : Takes (Alters Symbol.Any) (openFunction f) :=
  Takes.bind ((takes_openScope _).bind fun scope => takes_recordScope _ scope _) fun _ =>
    .change fun s => .inl (.inside s (some f))

theorem sameHeader_openFunction (f : Function) : Takes SameHeader (openFunction f) :=
  Takes.bind ((sameHeader_openScope _).bind fun _ => sameHeader_record _ _) fun _ =>
    .change fun _ => rfl

/-- Where a walk comes to a function, the function is declared first. -/
theorem declareFunction_of_visit {s t : Pass} {f : Function}
    (h : visit (.enterFunction f) s = .ok () t) :
    ∃ bound u, (declareFunction f).run s = .ok bound u ∧ t.header = u.header ∧
      Relation.ReflTransGen (Alters Symbol.Any) u t := by
  rw [visit_enterFunction] at h
  obtain ⟨bound, u, hdeclare, hopen⟩ := bind_ok.mp h
  have hheader := (sameHeader_openFunction f).header_after u
  have halters := takes_openFunction f u
  rw [hopen] at hheader halters
  exact ⟨bound, u, hdeclare, hheader, halters⟩

/-- Parameters that a walk comes by are added to the open signature in their order. -/
theorem header_of_params {f : Function} {params : List Decl} {s t : Pass} {signature : Signature}
    (h : Succeeds visit s (params.map (Event.enterParam f)) t) (hs : s.header = some signature) :
    (∀ d ∈ params, d.type.type?.isSome) ∧
      t.header = some { signature with params := signature.params ++ params.map (·.type.named) } := by
  -- on the parameters, with the signature that has grown so far
  induction params generalizing s signature with
  | nil =>
    cases h
    refine ⟨List.forall_mem_nil _, ?_⟩
    rw [hs, List.map_nil, List.append_nil]
  | cons d rest ih =>
    cases h with
    | @cons _ u _ _ _ hvisit hrest =>
      obtain ⟨bound, _, hparam, ⟨⟩⟩ := bind_ok.mp hvisit
      cases ht : d.type.type? with
      | none => cases (declareParam_run_unnamed s ht).symm.trans hparam
      | some type =>
        have hsome : d.type.type?.isSome := by
          rw [ht]
          rfl
        rw [declareParam_run hs hsome] at hparam
        -- binding the parameter may fail, but not touch the signature
        have hheader := (sameHeader_declare d (.ofParam d d.type.named)).header_after
          (s.heading (some { signature with params := signature.params ++ [d.type.named] }))
        rw [hparam] at hheader
        obtain ⟨hvalid, hlast⟩ := ih hrest hheader
        refine ⟨fun other hm => ?_, ?_⟩
        · rcases List.mem_cons.mp hm with rfl | hm
          · exact hsome
          · exact hvalid other hm
        · rw [hlast, List.map_cons, List.append_assoc]
          rfl

/-- **A function is signed before its body is checked**, with the signature that it spells out. -/
theorem signed_of_header {f : Function} {s t : Pass} (h : Succeeds visit s f.header t) :
    ∃ bound u, (declareFunction f).run s = .ok bound u ∧
      f.returns.type?.isSome ∧ (∀ d ∈ f.params, d.type.type?.isSome) ∧
      t.store.notes.signatures.get f.id = some f.signature ∧
      ∀ ref, bound = some ref → t.store.notes.symbols.get f.id = some ref ∧
        ref < t.store.symbols.size ∧ (t.store.symbol ref).signature = some f.signature := by
  cases h with
  | @cons _ v _ _ _ hvisit hrest =>
    obtain ⟨bound, u, hdeclare, hsame, hopen⟩ := declareFunction_of_visit hvisit
    obtain ⟨-, hreturns, hheader, hbound⟩ := declareFunction_ok hdeclare
    obtain ⟨w, hparams, hlast⟩ := Succeeds.append_iff.mp hrest
    obtain ⟨hvalid, hheader⟩ := header_of_params hparams (hsame.trans hheader)
    cases hlast with
    | cons hexit hnil =>
      cases hnil
      obtain ⟨signature, hopened, -, hstore⟩ := finishSignature_ok hexit
      cases hheader.symm.trans hopened
      refine ⟨bound, u, hdeclare, hreturns, hvalid, ?_, ?_⟩
      · rw [hstore]
        exact signedStore_signatures _ _ _
      · -- The symbol was recorded when the function was declared, and that cell is not written again.
        intro ref href
        obtain ⟨hcell, hlt⟩ := hbound ref href
        have hhead : Relation.ReflTransGen (Alters Symbol.Any) u w :=
          hopen.trans (alters_of_succeeds hparams)
        have hclose : Relation.ReflTransGen (Alters Symbol.Any) w t :=
          alters_of_succeeds (.cons hexit .nil)
        have hslot := (retains_of_alters hhead).symbols _ _ hcell
        have hthere := Nat.lt_of_lt_of_le hlt (evolves_of_alters hhead).count
        refine ⟨(retains_of_alters hclose).symbols _ _ hslot,
          Nat.lt_of_lt_of_le hthere (evolves_of_alters hclose).count, ?_⟩
        rw [hstore]
        exact signedStore_symbol _ hslot hthere

/-- The visits that a check which went through was made of. -/
theorem succeeds_of_check {p : Program} {s t : Pass} (h : (check p).run s = .ok () t) :
    ∃ log, Succeeds visit (s.logged log) p.events t := by
  rw [check_run] at h
  obtain ⟨called, -, hvisits⟩ := exists_visits_forM visit p.events
    (s.logged (s.log.push (.cleared p.file p.clearedNodes))) []
  rw [show forM p.events visit (s.logged _) = _ from h] at hvisits
  cases hvisits with
  | all hall => exact ⟨_, hall⟩

end Pass

theorem Store.succeeds_of_analyze {store after : Store} {p : Program} {a : Analysis}
    (h : store.analyze p = (.ok a, after)) : ∃ log u,
      Succeeds Pass.visit ((store.checking p).logged log) p.events u ∧ after = u.store := by
  obtain ⟨u, hcheck, -, hafter⟩ := Store.check_of_analyze h
  obtain ⟨log, hall⟩ := Pass.succeeds_of_check hcheck
  exact ⟨log, u, hall, hafter⟩

/-- **Signatures are those that were declared.** Let a pass without an open signature declare, close
signatures and move between scopes in any order, and let some of these calls fail.

* A signature is open exactly if some function was declared with success and nothing was closed since.
  Where scope, node and type name are in order, data can be declared at any time, a parameter only while
  a signature is open, and a function only while none is. A signature is closed only while one is open,
  and only onto a function and a symbol that have none yet.
* What is stored is the return type and the name of the function that was declared, with the types of all
  parameters since, in their order, whether or not their names could be bound.

So after an analysis that went through, each function has the signature that it spells out, whether its
name was bound or refused, and so has its symbol, if it was bound. Both had it before the body of the
function was checked. -/
theorem signatures_are_those_declared :
    (∀ (s : Pass) (calls : List Operation), s.header = none →
      (∀ op ∈ calls, op.isMove = true ∨ op.isDeclaring = true) →
      ((s.doing calls).header.isSome ↔ s.SomeOpen calls) ∧
      (∀ d, (s.doing calls).Ready d.id → d.type.type?.isSome →
        (∃ bound t, (Pass.declareData d).run (s.doing calls) = .ok bound t) ∧
        ((∃ bound t, (Pass.declareParam d).run (s.doing calls) = .ok bound t) ↔ s.SomeOpen calls) ∧
        (Pass.failure? ((Pass.declareParam d).run (s.doing calls))
          = some (.missingSignature d.name.name) ↔ ¬ s.SomeOpen calls)) ∧
      (∀ f, (s.doing calls).Ready f.id → f.returns.type?.isSome →
        ((∃ bound t, (Pass.declareFunction f).run (s.doing calls) = .ok bound t) ↔
          ¬ s.SomeOpen calls) ∧
        ∀ other, Pass.failure? ((Pass.declareFunction f).run (s.doing calls))
          = some (.nestedSignature f.name.name other) ↔
            ∃ g since, s.OpenedBy calls g since ∧ g.name.name = other) ∧
      (∀ f, (Pass.failure? ((Pass.finishSignature f).run (s.doing calls))
          = some (.missingSignature f.name.name) ↔ ¬ s.SomeOpen calls) ∧
        ((∃ t, (Pass.finishSignature f).run (s.doing calls) = .ok () t) ↔
          s.SomeOpen calls ∧ (s.doing calls).Unsigned f)) ∧
      ∀ f t g since, (Pass.finishSignature f).run (s.doing calls) = .ok () t →
        s.OpenedBy calls g since → ∃ returns, g.returns.type? = some returns ∧
          t.store.notes.signatures.get f.id
            = some ⟨returns, g.name.name, since.flatMap Operation.params⟩ ∧
          ∀ ref, (s.doing calls).store.notes.symbols.get f.id = some ref →
            ref < (s.doing calls).store.symbols.size → (t.store.symbol ref).signature
              = some ⟨returns, g.name.name, since.flatMap Operation.params⟩) ∧
    ∀ (store after : Store) (p : Program) (a : Analysis), store.analyze p = (.ok a, after) →
      ∀ f, .function f ∈ p.items →
        f.returns.type?.isSome ∧ (∀ d ∈ f.params, d.type.type?.isSome) ∧
        after.notes.signatures.get f.id = some f.signature ∧
        ∃ log before rest s t u bound,
          p.events = before ++ (f.header ++ (f.body.events ++ .exitFunction f :: rest)) ∧
          Succeeds Pass.visit ((store.checking p).logged log) before s ∧
          Succeeds Pass.visit s f.header t ∧ (Pass.declareFunction f).run s = .ok bound u ∧
          t.store.notes.signatures.get f.id = some f.signature ∧
          ∀ ref, bound = some ref →
            t.store.notes.symbols.get f.id = some ref ∧
            (t.store.symbol ref).signature = some f.signature ∧
            after.notes.symbols.get f.id = some ref ∧
            (after.symbol ref).signature = some f.signature := by
  refine ⟨?_, ?_⟩
  · intro s calls hs hcalls
    have hopen := Pass.isSome_header_doing_iff hs hcalls
    have hclosed : (s.doing calls).header = none ↔ ¬ s.SomeOpen calls := by
      rw [← hopen, Option.not_isSome_iff_eq_none]
    refine ⟨hopen, fun d hready ht => ⟨?_, ?_, ?_⟩, fun f hready ht => ⟨?_, ?_⟩,
      fun f => ⟨?_, ?_⟩, ?_⟩
    · exact Pass.declareData_run_ready hready ht
    · exact (Pass.declareParam_ok_iff hready ht).trans hopen
    · exact (Pass.declareParam_missing_iff hready ht).trans hclosed
    · exact (Pass.declareFunction_ok_iff hready ht).trans hclosed
    · intro other
      rw [Pass.declareFunction_nested_iff hready ht]
      constructor
      · rintro ⟨signature, hheader, hname⟩
        obtain ⟨g, since, hby, rfl⟩ := (Pass.header_doing_iff hs hcalls).mp hheader
        exact ⟨g, since, hby, hname⟩
      · rintro ⟨g, since, hby, hname⟩
        exact ⟨_, (Pass.header_doing_iff hs hcalls).mpr ⟨g, since, hby, rfl⟩, hname⟩
    · exact (Pass.finishSignature_missing_iff f).trans hclosed
    · rw [Pass.finishSignature_ok_iff, hopen]
    · intro f t g since hrun hby
      have hheader := (Pass.header_doing_iff hs hcalls).mpr ⟨g, since, hby, rfl⟩
      obtain ⟨signature, hopened, -, hstore⟩ := Pass.finishSignature_ok hrun
      cases hheader.symm.trans hopened
      obtain ⟨before, bound, u, -, hdeclare, -⟩ := hby
      obtain ⟨-, hreturns, -, -⟩ := Pass.declareFunction_ok hdeclare
      refine ⟨g.returns.named, ?_, ?_, fun ref href hlt => ?_⟩
      · obtain ⟨type, htype⟩ := Option.isSome_iff_exists.mp hreturns
        rw [Token.named, htype]
        rfl
      · rw [hstore]
        exact Pass.signedStore_signatures _ _ _
      · rw [hstore]
        exact Pass.signedStore_symbol _ href hlt
  · intro store after p a hok f hf
    obtain ⟨log, v, hall, rfl⟩ := Store.succeeds_of_analyze hok
    obtain ⟨before, rest, hevents⟩ := Program.exists_events_of_mem hf
    have hsplit : p.events = before ++ (f.header ++ (f.body.events ++ .exitFunction f :: rest)) := by
      simp [hevents, Function.events_eq]
    rw [hsplit] at hall
    obtain ⟨s, hbefore, hall⟩ := Succeeds.append_iff.mp hall
    obtain ⟨t, hheader, hbody⟩ := Succeeds.append_iff.mp hall
    obtain ⟨bound, u, hdeclare, hreturns, hparams, hcell, hbound⟩ := Pass.signed_of_header hheader
    -- What the body and the rest of the program do leaves signatures where they are.
    have halters := Pass.alters_of_succeeds hbody
    have hretains := Pass.retains_of_alters halters
    refine ⟨hreturns, hparams, hretains.signatures _ _ hcell, log, before, rest, s, t, u, bound,
      hsplit, hbefore, hheader, hdeclare, hcell, ?_⟩
    intro ref href
    obtain ⟨hslot, hlt, hsigned⟩ := hbound ref href
    have hevolves := (Pass.evolves_of_alters halters).symbol ref hlt
    exact ⟨hslot, hsigned, hretains.symbols _ _ hslot, hevolves.signature _ hsigned⟩

/-- A function with two parameters of one name, which calls itself. -/
def recursive : Function :=
  let at' (line column : UInt32) : Position := ⟨"twice.dk", line, column⟩
  { id := 1
    isIterator := false
    returns := ⟨.integerType, "int", at' 1 1⟩
    name := ⟨"f", at' 1 5⟩
    params :=
      [⟨2, false, ⟨.integerType, "int", at' 1 7⟩, ⟨"a", at' 1 11⟩⟩,
      ⟨3, false, ⟨.floatType, "float", at' 1 14⟩, ⟨"a", at' 1 20⟩⟩]
    body := .mk 4 ⟨.leftBrace, "\x7b", at' 1 23⟩
      [.ret ⟨.returnWord, "return", at' 2 3⟩
        (some (.call 5 105 ⟨"f", at' 2 10⟩
          [.literal 6 ⟨.integerLiteral, "1", at' 2 12⟩ (some .int),
          .literal 7 ⟨.floatLiteral, "2.0", at' 2 15⟩ (some .float)]))] }

/-- Another function takes the same name. -/
def repeated : Function :=
  let at' (line column : UInt32) : Position := ⟨"twice.dk", line, column⟩
  { id := 8
    isIterator := false
    returns := ⟨.floatType, "float", at' 4 1⟩
    name := ⟨"f", at' 4 7⟩
    params := []
    body := .mk 9 ⟨.leftBrace, "\x7b", at' 4 10⟩ [] }

def twice : Program :=
  { id := 0, file := "twice.dk", items := [.function recursive, .function repeated] }

/-- The parameters of a function, declared in a scope that is left before its signature is closed. -/
def gathering : List Operation := .createScope :: recursive.params.map .declareParam ++ [.leaveScope]

/-- The state in which the signature is still open. -/
def gathered : Pass := ({} : Pass).doing (.createScope :: .declareFunction recursive :: gathering)

/-- The second parameter counts, although its name is taken, and the second function has a signature of
its own. -/
theorem twice_signed :
    (∃ t, (Pass.finishSignature recursive).run gathered = .ok () t ∧
      t.store.notes.signatures.get 1 = some ⟨.int, "f", [.int, .float]⟩) ∧
    ∃ a after, ({} : Store).analyze twice = (.ok a, after) ∧
      after.notes.signatures.get 1 = some ⟨.int, "f", [.int, .float]⟩ ∧
      after.notes.signatures.get 8 = some ⟨.float, "f", []⟩ := by
  obtain ⟨hcalls, hanalyses⟩ := signatures_are_those_declared
  constructor
  · obtain ⟨-, -, -, hfinish, hstored⟩ := hcalls {}
      (.createScope :: .declareFunction recursive :: gathering) rfl (by decide)
    have hdeclared : Pass.failure? ((Pass.declareFunction recursive).run
        (({} : Pass).doing [.createScope])) = none := by decide +kernel
    have hby : ({} : Pass).OpenedBy (.createScope :: .declareFunction recursive :: gathering) recursive
        gathering := by
      cases hrun : (Pass.declareFunction recursive).run (({} : Pass).doing [.createScope]) with
      | error e u =>
        rw [hrun] at hdeclared
        cases hdeclared
      | ok bound u =>
        exact ⟨[.createScope], bound, u, rfl, hrun, fun g => by simp [gathering, recursive]⟩
    have hcells : gathered.store.notes.signatures.get 1 = none ∧
        gathered.store.notes.symbols.get 1 = some 0 ∧
        (gathered.store.symbol 0).signature = none := by decide +kernel
    obtain ⟨hcell, hslot, hsymbol⟩ := hcells
    have hunsigned : gathered.Unsigned recursive := by
      refine ⟨hcell, fun ref href => ?_⟩
      cases hslot.symm.trans href
      exact hsymbol
    obtain ⟨t, ht⟩ := (hfinish recursive).2.mpr ⟨⟨_, _, hby⟩, hunsigned⟩
    obtain ⟨returns, hreturns, hsignature, -⟩ := hstored _ _ _ _ ht hby
    cases hreturns
    exact ⟨t, ht, hsignature⟩
  · have hn : twice.nodes.Nodup := by decide
    have hl : twice.untyped? ({} : Store).notes.literals = none := rfl
    obtain ⟨s, -, -, hok⟩ := Store.analyze_ok hn (by decide) hl
    obtain ⟨-, -, hfirst, -⟩ := hanalyses _ _ _ _ hok recursive List.mem_cons_self
    obtain ⟨-, -, hsecond, -⟩ := hanalyses _ _ _ _ hok repeated
      (List.mem_cons_of_mem _ List.mem_cons_self)
    exact ⟨_, _, hok, hfirst, hsecond⟩

end Semant
