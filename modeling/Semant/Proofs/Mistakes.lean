import Semant.Proofs.Occurrences
import Semant.Proofs.Scoping

/-!
# One mistake, one report

An expression without a type makes whatever it is part of untyped as well, and none of this is worth
a second report. So the check must keep two things apart: expressions that *are* a mistake
(`Expr.Faulty`) and expressions that merely contain one. The first kind is reported exactly once,
the second not at all, and every missing type goes back to a mistake (`Expr.Reaches`).

Calls and format strings stop the search. They have a type whatever their arguments are, so a
mistake in an argument stays there.
-/

set_option autoImplicit false

namespace Semant

/-! ## Mistakes -/

/-- The operands on whose types the type of an expression depends. -/
def Expr.operands : Expr → List Expr
  | .binary _ _ _ lhs rhs => [lhs, rhs]
  | .unary _ _ _ operand | .cast _ _ operand | .grouped _ operand => [operand]
  | _ => []

/-- An expression is reached from another by going to operands, any number of times. -/
inductive Expr.Reaches : Expr → Expr → Prop where
  | here (e : Expr) : Reaches e e
  | operand {e x n : Expr} : x ∈ e.operands → Reaches x n → Reaches e n

theorem Expr.events_operand {e x : Expr} (h : x ∈ e.operands) : ∀ event ∈ x.events, event ∈ e.events := by
  intro event hm
  cases e with
  | binary id op token lhs rhs =>
    simp only [operands, List.mem_cons, List.not_mem_nil, or_false] at h
    rcases h with rfl | rfl <;> simp [Expr.events, hm]
  | unary id op token operand | cast id target operand | grouped id operand =>
    cases List.mem_singleton.mp h
    simp [Expr.events, hm]
  | _ => cases h

theorem Expr.sizeOf_operand {e x : Expr} (h : x ∈ e.operands) : sizeOf x < sizeOf e := by
  cases e with
  | binary id op token lhs rhs =>
    simp only [operands, List.mem_cons, List.not_mem_nil, or_false] at h
    rcases h with rfl | rfl <;> simp only [binary.sizeOf_spec] <;> omega
  | unary id op token operand | cast id target operand | grouped id operand =>
    cases List.mem_singleton.mp h
    simp only [unary.sizeOf_spec, cast.sizeOf_spec, grouped.sizeOf_spec]
    omega
  | _ => cases h

/-- Where the reference stands, the first declaration of its name that can be seen is not of the
class that the use asks for, or there is none. -/
def Unresolved (p : Program) (r : Reference) : Prop :=
  ∃ before event rest, p.events = before ++ event :: rest ∧ event.refers? = some r ∧
    ¬ ∃ x, (seen before r.name.name).head? = some x ∧ x.2.cls = r.use.expects

/-- The expression is a mistake itself: a name that does not resolve, or an operation whose rule
rejects operands that all have types. -/
def Expr.Faulty (p : Program) (types : Expr → Option Ty) : Expr → Prop
  | .var _ node name => Unresolved p ⟨node, name, .value⟩
  | .call _ node callee _ => Unresolved p ⟨node, callee, .callee⟩
  | .binary _ op _ lhs rhs => ∃ l r error, types lhs = some l ∧ types rhs = some r ∧
      Rules.binary op l r = .error error
  | .unary _ op _ operand => ∃ t error, types operand = some t ∧ Rules.unary op t = .error error
  | .cast _ target operand => ∃ t error, types operand = some t ∧
      Rules.cast target.named t = .error error
  | _ => False

/-- What is reported at the events that are about a node. -/
def reportsOf (journal : List (Event × Diagnostics)) (node : NodeId) : Diagnostics :=
  (journal.filter fun x => x.1.subject? = some node).flatMap Prod.snd

/-- The function in whose body the walk is after an event. -/
def Event.around (outer : Option Function) : Event → Option Function
  | .enterFunction f => some f
  | .exitFunction _ | .enterStart _ => none
  | _ => outer

/-- The function in whose body the walk is after some events. -/
def functionAround (events : List Event) : Option Function := events.foldl Event.around none

namespace Outline

/-! ## Types -/

/-- The type that the last event of an expression finds, from what is known of its parts. -/
def found (o : Outline) : Expr → Option Ty
  | .literal id token given => o.typeOf (.literal id token given)
  | .var _ node _ | .call _ node _ _ => (o.symbolOf node).map fun entry => entry.definition.type
  | .grouped _ inner => o.typeOf inner
  | .format .. => some .string
  | e => o.answer e.closing

theorem question_run {o : Outline} {e : Expr} (hp : o.Permits e.closing) {events : List Event}
    (ho : o.Orderly events) : (o.run events).question e.closing = o.question e.closing := by
  cases e with
  | binary id op token lhs rhs =>
    simp only [Expr.closing, question, hp.2.1.typeOf_run ho, hp.2.2.typeOf_run ho]
  | unary id op token operand => simp only [Expr.closing, question, hp.2.typeOf_run ho]
  | cast id target operand => simp only [Expr.closing, question, hp.2.1.typeOf_run ho]
  | _ => rfl

/-- What an expression is found to be stays the same. -/
theorem found_run {o : Outline} {e : Expr} (hp : o.Permits e.closing) {events : List Event}
    (ho : o.Orderly events) : (o.run events).found e = o.found e := by
  have hanswer : (o.run events).answer e.closing = o.answer e.closing := by
    rw [answer, answer, question_run hp ho]
  have hsymbol : ∀ {n : NodeId}, (o.symbols.get n).isSome → (o.run events).symbolOf n = o.symbolOf n := by
    intro n hn
    obtain ⟨found, hf⟩ := Option.isSome_iff_exists.mp hn
    simp [symbolOf, symbols_run ho hf, hf]
  cases e with
  | literal id token given => simp [found, typeOf]
  | var id node name =>
    exact congrArg (Option.map fun entry : Entry => entry.definition.type) (hsymbol hp.2)
  | call id node callee args =>
    exact congrArg (Option.map fun entry : Entry => entry.definition.type) (hsymbol hp.2.1)
  | grouped id inner => exact hp.2.typeOf_run ho
  | format id token args => rfl
  | binary | unary | cast => exact hanswer

/-- In the end an expression has the type that its last event found. -/
theorem typeOf_closing {o : Outline} {e : Expr} {rest : List Event}
    (ho : o.Orderly (e.closing :: rest)) :
    (o.run (e.closing :: rest)).typeOf e = (o.run (e.closing :: rest)).found e := by
  have hsettle : e.isLiteral = false → o.step e.closing = o.settle e (o.found e) →
      (o.run (e.closing :: rest)).typeOf e = o.found e := by
    intro hlit hstep
    have hset : (o.step e.closing).Settled e := by
      rw [hstep]
      exact Or.inr (by simp [settle, Cells.get_put])
    rw [run_cons, hset.typeOf_run ho.2, hstep, typeOf_settle o hlit]
  rw [found_run ho.1 ho]
  cases e with
  | literal id token given => simp [found, typeOf]
  | _ => exact hsettle rfl rfl

/-- An operation is found to have no type if its rule rejects the types of its operands, or if one
of them has none. -/
theorem found_eq_none_iff (o : Outline) {e : Expr} (p : Program) (hop : e.operands ≠ []) :
    o.found e = none ↔ e.Faulty p o.typeOf ∨ ∃ x ∈ e.operands, o.typeOf x = none := by
  cases e with
  | binary id op token lhs rhs =>
    cases hlhs : o.typeOf lhs with
    | none => simp [found, answer, question, Expr.closing, Expr.operands, hlhs]
    | some l =>
      cases hrhs : o.typeOf rhs with
      | none => simp [found, answer, question, Expr.closing, Expr.operands, hlhs, hrhs]
      | some r =>
        cases hrule : Rules.binary op l r <;>
          simp [found, answer, question, Expr.closing, Expr.Faulty, Expr.operands, hlhs, hrhs, hrule,
            Except.toOption]
  | unary id op token operand =>
    cases hx : o.typeOf operand with
    | none => simp [found, answer, question, Expr.closing, Expr.operands, hx]
    | some t =>
      cases hrule : Rules.unary op t <;>
        simp [found, answer, question, Expr.closing, Expr.Faulty, Expr.operands, hx, hrule,
          Except.toOption]
  | cast id target operand =>
    cases hx : o.typeOf operand with
    | none => simp [found, answer, question, Expr.closing, Expr.operands, hx]
    | some t =>
      cases hrule : Rules.cast target.named t <;>
        simp [found, answer, question, Expr.closing, Expr.Faulty, Expr.operands, hx, hrule,
          Except.toOption]
  | grouped id inner => simp [Expr.Faulty, Expr.operands, found]
  | _ => exact absurd rfl hop

/-! ## Names -/

/-- A reference stands for nothing if and only if it does not resolve. -/
theorem unresolved_iff {literals : Cells Ty} {p : Program} (ho : (Outline.start literals).Orderly p.events)
    {event : Event} (hm : event ∈ p.events) {r : Reference} (hr : event.refers? = some r) :
    Unresolved p r ↔ ((Outline.start literals).run p.events).symbolOf r.node = none := by
  have hsplit : ∀ before event rest, p.events = before ++ event :: rest → event.refers? = some r →
      (((Outline.start literals).run p.events).symbolOf r.node = none ↔
        ¬ ∃ x, (seen before r.name.name).head? = some x ∧ x.2.cls = r.use.expects) := by
    intro before event rest hsplit hr
    rw [hsplit, orderly_append] at ho
    obtain ⟨hbefore, hrest⟩ := ho
    rw [hsplit, run_append, run_cons, symbolOf, symbols_run hrest.2 (of_refers hr).1,
      ← (follows_run hbefore).resolves_iff]
    cases resolution ((Outline.start literals).run before).scope r.name r.use <;>
      simp [Except.toOption]
  constructor
  · rintro ⟨before, ev, rest, hsp, hev, hnot⟩
    exact (hsplit before ev rest hsp hev).mpr hnot
  · intro hnone
    obtain ⟨before, rest, hsp⟩ := List.append_of_mem hm
    exact ⟨before, event, rest, hsp, hr, (hsplit before event rest hsp hr).mp hnone⟩

/-! ## Missing types -/

section Missing

variable {literals : Cells Ty} {p : Program}
  (ho : (Outline.start literals).Orderly p.events) (hl : p.untyped? literals = none)

include ho

theorem typeOf_final {e : Expr} (hm : e.closing ∈ p.events) :
    ((Outline.start literals).run p.events).typeOf e
      = ((Outline.start literals).run p.events).found e := by
  obtain ⟨before, rest, hsplit⟩ := List.append_of_mem hm
  rw [hsplit, orderly_append] at ho
  rw [hsplit, run_append]
  exact typeOf_closing ho.2

include hl

/-- An expression has no type if it is a mistake or one of its operands has no type. -/
theorem typeOf_eq_none_iff {e : Expr} (hm : ∀ event ∈ e.events, event ∈ p.events) :
    ((Outline.start literals).run p.events).typeOf e = none ↔
      e.Faulty p ((Outline.start literals).run p.events).typeOf ∨
        ∃ x ∈ e.operands, ((Outline.start literals).run p.events).typeOf x = none := by
  have hclosing : e.closing ∈ p.events := hm _ (by rw [e.events_eq]; simp)
  cases e with
  | literal id token given =>
    have htyped := List.findSome?_eq_none_iff.mp hl _ hclosing
    have htype : ((Outline.start literals).run p.events).typeOf (.literal id token given)
        = given.or (literals.get id) := by
      simp [typeOf, Outline.start]
    rw [htype]
    cases hg : given.or (literals.get id) with
    | none =>
      simp only [Expr.closing, Event.untyped?, hg] at htyped
      cases htyped
    | some type => simp [Expr.Faulty, Expr.operands]
  -- names have no operands, so being without a type is the mistake itself
  | var id node name =>
    rw [typeOf_final ho hclosing]
    have hname := unresolved_iff ho (hm (.enterVariable (.var id node name) name) (by simp [Expr.events]))
      (r := ⟨node, name, .value⟩) rfl
    simp [Expr.Faulty, Expr.operands, hname, found]
  | call id node callee args =>
    rw [typeOf_final ho hclosing]
    have hname := unresolved_iff ho
      (hm (.enterCall (.call id node callee args) callee args) (by simp [Expr.events]))
      (r := ⟨node, callee, .callee⟩) rfl
    simp [Expr.Faulty, Expr.operands, hname, found]
  | format id token args =>
    rw [typeOf_final ho hclosing]
    simp [Expr.Faulty, Expr.operands, found]
  | binary | unary | cast | grouped =>
    rw [typeOf_final ho hclosing]
    exact found_eq_none_iff _ p (List.cons_ne_nil _ _)

theorem reaches_of_typeOf_eq_none (e : Expr) (hm : ∀ event ∈ e.events, event ∈ p.events)
    (hnone : ((Outline.start literals).run p.events).typeOf e = none) :
    ∃ n, e.Reaches n ∧ n.Faulty p ((Outline.start literals).run p.events).typeOf := by
  rcases (typeOf_eq_none_iff ho hl hm).mp hnone with hfaulty | ⟨x, hx, hnone⟩
  · exact ⟨e, .here e, hfaulty⟩
  · obtain ⟨n, hreach, hn⟩ := reaches_of_typeOf_eq_none x
      (fun event he => hm event (Expr.events_operand hx event he)) hnone
    exact ⟨n, .operand hx hreach, hn⟩
termination_by sizeOf e
decreasing_by exact Expr.sizeOf_operand hx

theorem typeOf_eq_none_of_reaches {e n : Expr} (hreach : e.Reaches n)
    (hm : ∀ event ∈ e.events, event ∈ p.events)
    (hn : n.Faulty p ((Outline.start literals).run p.events).typeOf) :
    ((Outline.start literals).run p.events).typeOf e = none := by
  induction hreach with
  | here e => exact (typeOf_eq_none_iff ho hl hm).mpr (Or.inl hn)
  | operand hx hreach ih =>
    have hnone := ih (fun event he => hm event (Expr.events_operand hx event he)) hn
    exact (typeOf_eq_none_iff ho hl hm).mpr (Or.inr ⟨_, hx, hnone⟩)

end Missing

/-! ## Reports of one node -/

theorem reportsOf_append (first rest : List (Event × Diagnostics)) (node : NodeId) :
    reportsOf (first ++ rest) node = reportsOf first node ++ reportsOf rest node := by
  simp [reportsOf]

/-- Events that are about other nodes do not count. -/
theorem reportsOf_journal_eq_nil (o : Outline) {events : List Event} {node : NodeId}
    (h : ∀ event ∈ events, event.subject? ≠ some node) : reportsOf (o.journal events) node = [] := by
  induction events generalizing o with
  | nil => rfl
  | cons event rest ih =>
    have hrest := ih (o.step event) fun ev hm => h ev (List.mem_cons_of_mem _ hm)
    simpa [reportsOf, journal, h event List.mem_cons_self] using hrest

/-- Events that are all about the node all count. -/
theorem reportsOf_journal_eq_all (o : Outline) {events : List Event} {node : NodeId}
    (h : ∀ event ∈ events, event.subject? = some node) :
    reportsOf (o.journal events) node = (o.journal events).flatMap Prod.snd := by
  induction events generalizing o with
  | nil => rfl
  | cons event rest ih =>
    have hrest := ih (o.step event) fun ev hm => h ev (List.mem_cons_of_mem _ hm)
    simpa [reportsOf, journal, h event List.mem_cons_self] using hrest

/-- What an expression reports itself is what its first and last events report. -/
theorem reportsOf_row (o : Outline) {e : Expr} (hid : e.id ∉ entered e.inner) :
    reportsOf (o.journal e.events) e.id
      = (o.journal e.opening).flatMap Prod.snd
        ++ (o.run (.enterExpr e :: (e.opening ++ e.inner))).reports e.closing := by
  -- The events at both ends are about the node, and what lies between is about other nodes.
  have hopening := reportsOf_journal_eq_all o fun event hm =>
    (e.own_events event (List.mem_append_left _ hm)).1
  have hinner := reportsOf_journal_eq_nil (o.run e.opening) fun event hm hs =>
    hid (e.grounded_inner event hm _ hs)
  have hlast := reportsOf_journal_eq_all ((o.run e.opening).run e.inner) fun event hm =>
    (e.own_events event (List.mem_append_right _ hm)).1
  have hquiet : ∀ o : Outline, o.reports (.exitExpr e) = [] := fun _ => rfl
  have henter : o.journal (.enterExpr e :: (e.opening ++ (e.inner ++ [e.closing, .exitExpr e])))
      = [(.enterExpr e, [])] ++ o.journal (e.opening ++ (e.inner ++ [e.closing, .exitExpr e])) := rfl
  have hnone : reportsOf [(.enterExpr e, [])] e.id = [] := by simp [reportsOf]
  rw [e.events_eq, henter, journal_append, journal_append, reportsOf_append, reportsOf_append,
    reportsOf_append, hnone, hopening, hinner, hlast]
  simp [journal, hquiet]

/-- The row of an expression in a program, and what the expression reports in it. -/
theorem reportsOf_expr (literals : Cells Ty) {p : Program} (hn : p.nodes.Nodup) {e : Expr}
    (he : .enterExpr e ∈ p.events) :
    ∃ before rest, p.events = before ++ (e.events ++ rest) ∧
      reportsOf ((Outline.start literals).journal p.events) e.id
        = (((Outline.start literals).run before).journal e.opening).flatMap Prod.snd
          ++ ((Outline.start literals).run (before ++ .enterExpr e :: (e.opening ++ e.inner))).reports
            e.closing := by
  obtain ⟨before, rest, hsplit, hb, hr⟩ := p.holds hn he
  have hnodup : (entered e.events).Nodup := by
    rw [Program.nodes, hsplit, entered_append, entered_append] at hn
    exact (List.nodup_append.mp (List.nodup_append.mp hn).2.1).1
  refine ⟨before, rest, hsplit, ?_⟩
  rw [hsplit, journal_append, journal_append, reportsOf_append, reportsOf_append,
    reportsOf_journal_eq_nil _ hb, reportsOf_journal_eq_nil _ hr,
    reportsOf_row _ (Expr.id_notMem_inner hnodup), run_append]
  simp

section Own

variable {literals : Cells Ty} {p : Program}
  (ho : (Outline.start literals).Orderly p.events) (hn : p.nodes.Nodup)

include ho hn

/-- An operation reports what its rule says, if there are types to ask it about. -/
theorem reportsOf_operation {e : Expr} (he : .enterExpr e ∈ p.events) (hop : e.operands ≠ []) :
    reportsOf ((Outline.start literals).journal p.events) e.id
      = (((Outline.start literals).run p.events).question e.closing).elim [] fun x =>
          ruling x.1 x.2 := by
  obtain ⟨before, rest, hsplit, hreports⟩ := reportsOf_expr literals hn he
  have hparts : p.events = (before ++ .enterExpr e :: (e.opening ++ e.inner))
      ++ (e.closing :: .exitExpr e :: rest) := by
    rw [hsplit, e.events_eq]
    simp
  rw [hparts, orderly_append] at ho
  have hquestion := question_run ho.2.1 ho.2
  rw [← run_append, ← hparts] at hquestion
  rw [hreports, hquestion]
  cases e with
  | binary | unary | cast | grouped => simp [Expr.opening, Expr.closing, journal, reports, remarks]
  | _ => exact absurd rfl hop

/-- A name that stands for nothing is reported once, and nothing else at its node. -/
theorem reportsOf_name {e : Expr} (he : .enterExpr e ∈ p.events) {opener : Event}
    (hopening : e.opening = [opener]) {r : Reference} (hr : opener.refers? = some r)
    (hnode : r.node = e.nameNode)
    (hnone : ((Outline.start literals).run p.events).symbolOf r.node = none) :
    ∃ error, reportsOf ((Outline.start literals).journal p.events) e.id
      = [⟨.error, r.name.position, .semantic error⟩] := by
  obtain ⟨before, rest, hsplit, hreports⟩ := reportsOf_expr literals hn he
  let o := (Outline.start literals).run before
  have hevents : p.events = (before ++ [.enterExpr e])
      ++ (opener :: (e.inner ++ (e.closing :: .exitExpr e :: rest))) := by
    rw [hsplit, e.events_eq, hopening]
    simp
  have horderly : o.Orderly (opener :: (e.inner ++ (e.closing :: .exitExpr e :: rest))) := by
    rw [hevents, orderly_append, run_append] at ho
    exact ho.2
  have hslot := (of_refers (o := o) hr).1
  -- The name did not resolve, or its node would still stand for something in the end.
  have hfinal : ((Outline.start literals).run p.events).symbols.get r.node
      = some (resolution o.scope r.name r.use).toOption := by
    rw [hevents, run_append, run_append]
    exact symbols_run horderly.2 hslot
  rw [symbolOf, hfinal] at hnone
  cases hres : resolution o.scope r.name r.use with
  | ok entry =>
    rw [hres] at hnone
    cases hnone
  | error error =>
    have hrun : o.run (.enterExpr e :: (e.opening ++ e.inner)) = (o.step opener).run e.inner := by
      rw [hopening]
      rfl
    -- A call whose name means nothing does not look at its arguments.
    have hclosing : (o.run (.enterExpr e :: (e.opening ++ e.inner))).symbolOf e.nameNode = none := by
      rw [hrun, ← hnode, symbolOf,
        symbols_run ((orderly_append _ _ _).mp horderly.2).1 hslot, hres]
      rfl
    have hlast : (o.run (.enterExpr e :: (e.opening ++ e.inner))).reports e.closing = [] := by
      cases e with
      | var id node name => rfl
      | call id node callee args =>
        rw [Expr.closing, reports, remarks, misfit, hclosing]
        rfl
      | _ => cases hopening
    refine ⟨error, ?_⟩
    rw [hreports, run_append, hlast, hopening]
    simp [journal, (of_refers (o := o) hr).2, unresolved, hres, o]

/-- A mistake is reported once, where it is. -/
theorem reportsOf_faulty {e : Expr} (he : .enterExpr e ∈ p.events)
    (hm : ∀ event ∈ e.events, event ∈ p.events)
    (hf : e.Faulty p ((Outline.start literals).run p.events).typeOf) :
    ∃ d, reportsOf ((Outline.start literals).journal p.events) e.id = [d] ∧
      d.severity = .error ∧ d.position = e.position := by
  -- the three operations are reported alike, where their operator stands
  have hrule : ∀ error, e.operands ≠ [] →
      ((Outline.start literals).run p.events).question e.closing = some (e.position, .error error) →
      ∃ d, reportsOf ((Outline.start literals).journal p.events) e.id = [d] ∧
        d.severity = .error ∧ d.position = e.position := by
    intro error hop hq
    exact ⟨⟨.error, e.position, .typing error⟩, by rw [reportsOf_operation ho hn he hop, hq]; rfl,
      rfl, rfl⟩
  cases e with
  | var id node name =>
    have hnone := (unresolved_iff ho (hm (.enterVariable (.var id node name) name) (by simp [Expr.events]))
      rfl).mp hf
    obtain ⟨error, herror⟩ := reportsOf_name ho hn he rfl rfl rfl hnone
    exact ⟨_, herror, rfl, rfl⟩
  | call id node callee args =>
    have hnone := (unresolved_iff ho
      (hm (.enterCall (.call id node callee args) callee args) (by simp [Expr.events])) rfl).mp hf
    obtain ⟨error, herror⟩ := reportsOf_name ho hn he rfl rfl rfl hnone
    exact ⟨_, herror, rfl, rfl⟩
  | binary id op token lhs rhs =>
    obtain ⟨l, r, error, hl, hr, herror⟩ := hf
    exact hrule error (List.cons_ne_nil _ _)
      (by simp [Expr.closing, question, hl, hr, herror, Expr.position])
  | unary id op token operand =>
    obtain ⟨t, error, ht, herror⟩ := hf
    exact hrule error (List.cons_ne_nil _ _)
      (by simp [Expr.closing, question, ht, herror, Expr.position])
  | cast id target operand =>
    obtain ⟨t, error, ht, herror⟩ := hf
    exact hrule error (List.cons_ne_nil _ _)
      (by simp [Expr.closing, question, ht, herror, Expr.position])
  | literal | grouped | format => cases hf

theorem reportsOf_eq_nil {e x : Expr} (he : .enterExpr e ∈ p.events) (hx : x ∈ e.operands)
    (hnone : ((Outline.start literals).run p.events).typeOf x = none) :
    reportsOf ((Outline.start literals).journal p.events) e.id = [] := by
  rw [reportsOf_operation ho hn he (List.ne_nil_of_mem hx)]
  have hquestion : ((Outline.start literals).run p.events).question e.closing = none := by
    cases e with
    | binary id op token lhs rhs =>
      simp only [Expr.operands, List.mem_cons, List.not_mem_nil, or_false] at hx
      rcases hx with rfl | rfl <;> simp [Expr.closing, question, hnone]
    | unary id op token operand | cast id target operand | grouped id operand =>
      cases List.mem_singleton.mp hx
      simp [Expr.closing, question, hnone]
    | _ => cases hx
  rw [hquestion]
  rfl

end Own

/-! ## Values that are stored or returned -/

theorem function_step (o : Outline) (event : Event) :
    (o.step event).function = event.around o.function := by
  cases event with
  | enterDecl d | enterParam f d => exact (declare_frame o _).2.2.2
  | _ => rfl

theorem function_run (o : Outline) (events : List Event) :
    (o.run events).function = events.foldl Event.around o.function := by
  induction events generalizing o with
  | nil => rfl
  | cons event rest ih => rw [run_cons, ih, function_step, List.foldl_cons]

end Outline

open Outline

theorem Expr.Reaches.events {e n : Expr} (h : e.Reaches n) : ∀ event ∈ n.events, event ∈ e.events := by
  induction h with
  | here e => exact fun _ hm => hm
  | operand hx _ ih => exact fun event hm => Expr.events_operand hx event (ih event hm)

/-- Whether an expression is a mistake depends on the types of its operands only. -/
theorem Expr.faulty_congr {e : Expr} {p : Program} {types types' : Expr → Option Ty}
    (h : ∀ x ∈ e.operands, types x = types' x) : e.Faulty p types ↔ e.Faulty p types' := by
  cases e with
  | binary id op token lhs rhs =>
    simp only [Expr.Faulty, h lhs (by simp [Expr.operands]), h rhs (by simp [Expr.operands])]
  | unary id op token operand | cast id target operand =>
    simp only [Expr.Faulty, h operand (by simp [Expr.operands])]
  | _ => exact Iff.rfl

/-- **One mistake, one report.** In a program in which no node occurs twice, with any number of
errors in it:

* an expression has no type if and only if a mistake is reached from it;
* every mistake reports exactly one error itself, where it is;
* an operation with an operand of no type reports nothing itself;
* and neither does the definition, assignment or `return` of a value of no type, except that a
  function which returns nothing reports any value. -/
theorem analyze_reports_mistakes_once {store after : Store} {p : Program} {a : Analysis}
    (hn : p.nodes.Nodup) (h : store.analyze p = (.ok a, after)) :
    a.diagnostics = (store.journal p).flatMap Prod.snd ∧
    (∀ e, .enterExpr e ∈ p.events →
      (after.notes.typeOf e = none ↔ ∃ n, e.Reaches n ∧ n.Faulty p after.notes.typeOf) ∧
      (∀ n, e.Reaches n → n.Faulty p after.notes.typeOf →
        ∃ d, reportsOf (store.journal p) n.id = [d] ∧ d.severity = .error ∧
          d.position = n.position) ∧
      ∀ x ∈ e.operands, after.notes.typeOf x = none → reportsOf (store.journal p) e.id = []) ∧
    ∀ before event rest, p.events = before ++ event :: rest →
      (∀ d init, event = .exitData d → d.init = some init → after.notes.typeOf init = none →
        (store.journal p)[before.length]? = some (event, [])) ∧
      (∀ x, event = .exitAssign x → after.notes.typeOf x.value = none →
        (store.journal p)[before.length]? = some (event, [])) ∧
      ∀ keyword value f, event = .exitReturn keyword (some value) →
        functionAround before = some f → f.returns.named ≠ .nothing →
        after.notes.typeOf value = none → (store.journal p)[before.length]? = some (event, []) := by
  obtain ⟨horderly, hl, hds, hjournal, hout⟩ := Store.analyze_outcome hn h
  have hfaulty : ∀ n : Expr, (∀ event ∈ n.events, event ∈ p.events) →
      (n.Faulty p after.notes.typeOf ↔
        n.Faulty p ((Outline.start store.notes.literals).run p.events).typeOf) := by
    intro n hm
    exact Expr.faulty_congr fun x hx =>
      hout.types x (hm _ (Expr.events_operand hx _ x.enterExpr_mem))
  refine ⟨hds, ?_, ?_⟩
  · intro e he
    obtain ⟨before, rest, hsplit, -, -⟩ := p.holds hn he
    have hm : ∀ event ∈ e.events, event ∈ p.events := by
      intro event hevent
      simp [hsplit, hevent]
    have hreached : ∀ {n : Expr}, e.Reaches n → ∀ event ∈ n.events, event ∈ p.events :=
      fun hreach event hevent => hm event (hreach.events event hevent)
    rw [hout.types e he, hjournal]
    refine ⟨⟨?_, ?_⟩, ?_, ?_⟩
    · intro hnone
      obtain ⟨n, hreach, hf⟩ := reaches_of_typeOf_eq_none horderly hl e hm hnone
      exact ⟨n, hreach, (hfaulty n (hreached hreach)).mpr hf⟩
    · rintro ⟨n, hreach, hf⟩
      exact typeOf_eq_none_of_reaches horderly hl hreach hm ((hfaulty n (hreached hreach)).mp hf)
    · intro n hreach hf
      exact reportsOf_faulty horderly hn (hreached hreach _ n.enterExpr_mem) (hreached hreach)
        ((hfaulty n (hreached hreach)).mp hf)
    · intro x hx hnone
      exact reportsOf_eq_nil horderly hn he hx (hout.untyped x hnone)
  · intro before event rest hsplit
    rw [hjournal, hsplit, getElem?_journal]
    rw [hsplit, orderly_append] at horderly
    rw [hsplit, run_append] at hout
    obtain ⟨-, hrest⟩ := horderly
    -- A value that has no type in the end had none when it was stored: types are settled once.
    have hnone : ∀ {e : Expr}, ((Outline.start store.notes.literals).run before).Settled e →
        after.notes.typeOf e = none →
        ((Outline.start store.notes.literals).run before).typeOf e = none := by
      intro e hs hnone
      rw [← hs.typeOf_run hrest]
      exact hout.untyped e hnone
    refine ⟨?_, ?_, ?_⟩
    · rintro d init rfl hinit htype
      have hvalue := hnone (hrest.1.2 init hinit) htype
      simp [reports, remarks, question, hinit, hvalue]
    · rintro x rfl htype
      have hvalue := hnone hrest.1.2 htype
      simp [reports, remarks, question, hvalue]
    · rintro keyword value f rfl hf hreturns htype
      have hvalue := hnone (hrest.1.2 value rfl) htype
      have hfun := (function_run (Outline.start store.notes.literals) before).trans hf
      simp [reports, remarks, misreturn, question, hfun, hreturns, hvalue]

/-- The sum of a name that nobody declared and a number. -/
def undeclaredSum : Expr :=
  .binary 5 .add ⟨.plus, "+", ⟨"cascade.dk", 2, 14⟩⟩ (.var 6 106 ⟨"m", ⟨"cascade.dk", 2, 12⟩⟩)
    (.literal 7 ⟨.integerLiteral, "1", ⟨"cascade.dk", 2, 16⟩⟩ (some .int))

/-- Data that is to hold the negated sum. -/
def cascading : Program :=
  { id := 0
    file := "cascade.dk"
    items :=
      [.start
        { keyword := ⟨.startWord, "start", ⟨"cascade.dk", 1, 1⟩⟩
          body := .mk 1 ⟨.leftBrace, "\x7b", ⟨"cascade.dk", 1, 7⟩⟩
            [.data
              { decl :=
                  ⟨2, false, ⟨.integerType, "int", ⟨"cascade.dk", 2, 3⟩⟩,
                    ⟨"n", ⟨"cascade.dk", 2, 7⟩⟩⟩
                init := some (.unary 3 .minus ⟨.minus, "-", ⟨"cascade.dk", 2, 10⟩⟩
                  (.grouped 4 undeclaredSum)) }] }] }

/-- The name is reported, and nothing of what is made of it. -/
theorem cascading_reports_name : cascading.nodes.Nodup ∧
    ∃ a after, ({} : Store).analyze cascading = (.ok a, after) ∧
      after.notes.typeOf undeclaredSum = none ∧ reportsOf (({} : Store).journal cascading) 5 = [] ∧
      ∃ d, reportsOf (({} : Store).journal cascading) 6 = [d] ∧ d.severity = .error ∧
        d.position = ⟨"cascade.dk", 2, 12⟩ := by
  have hn : cascading.nodes.Nodup := by decide
  have hl : cascading.untyped? ({} : Store).notes.literals = none := rfl
  obtain ⟨s, -, -, hok⟩ := Store.analyze_ok hn (by decide) hl
  have honce := (analyze_reports_mistakes_once hn hok).2.1
  have hfaulty : ∀ types, (Expr.var 6 106 ⟨"m", ⟨"cascade.dk", 2, 12⟩⟩).Faulty cascading types := by
    intro types
    refine ⟨cascading.events.take 9, _, cascading.events.drop 10, rfl, rfl, ?_⟩
    rintro ⟨x, hx, -⟩
    cases hx
  have hsum := honce undeclaredSum (List.mem_of_getElem? (i := 7) rfl)
  have hname := honce (.var 6 106 ⟨"m", ⟨"cascade.dk", 2, 12⟩⟩) (List.mem_of_getElem? (i := 8) rfl)
  refine ⟨hn, _, _, hok, hsum.1.mpr ⟨_, .operand (.head _) (.here _), hfaulty _⟩,
    hsum.2.2 _ (.head _) (hname.1.mpr ⟨_, .here _, hfaulty _⟩),
    hname.2.1 _ (.here _) (hfaulty _)⟩

end Semant
