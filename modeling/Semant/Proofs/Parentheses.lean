import Semant.Proofs.Grouping
import Semant.Proofs.Mistakes

/-!
# Parentheses are transparent

Two programs that differ in parentheses only are checked side by side, one of them without any. The
induction is over nodes. What carries it from one child of a node to the next is that the children
have nodes of their own: the cells of a pair of parentheses are empty until the walk leaves it, and
after that nothing writes to them, nor to the cells of what is inside.

Nothing is conditional on the checks going well. If one stops, the other stops at the same place
with the same error, and even then every expression apart from the parentheses has the same type in
both.
-/

set_option autoImplicit false

namespace Semant

/-! ## Checks of some events -/

/-- The check of some events. -/
def Pass.through (s : Pass) (events : List Event) : EStateM.Result InternalError Pass PUnit :=
  (forM events Pass.visit : PassM PUnit).run s

namespace Pass

variable {s t u : Pass} {first rest : List Event}

/-- One event is a check of its own. -/
theorem through_singleton (s : Pass) (event : Event) : s.through [event] = (visit event).run s := by
  unfold through
  rw [List.forM_cons, EStateM.run_bind]
  cases (visit event).run s <;> rfl

theorem through_append_of_ok (h : s.through first = .ok ⟨⟩ t) (rest : List Event) :
    s.through (first ++ rest) = t.through rest := by
  unfold through at h ⊢
  rw [List.forM_append, EStateM.run_bind, h]

theorem through_append_of_error {e : InternalError} (h : s.through first = .error e t)
    (rest : List Event) : s.through (first ++ rest) = .error e t := by
  unfold through at h ⊢
  rw [List.forM_append, EStateM.run_bind, h]

theorem through_append_ok (h : s.through (first ++ rest) = .ok ⟨⟩ u) :
    ∃ t, s.through first = .ok ⟨⟩ t ∧ t.through rest = .ok ⟨⟩ u := by
  cases hs : s.through first with
  | ok _ t => exact ⟨t, rfl, by rw [← h, through_append_of_ok hs]⟩
  | error e t =>
    rw [through_append_of_error hs] at h
    cases h

/-- A whole check is the check of its events, with a note before it. -/
theorem check_eq_through (literals : Cells Ty) (p : Program) :
    (check p).run (start literals)
      = ((start literals).logged #[.cleared p.file p.clearedNodes]).through p.events :=
  check_run p _

theorem Meet.exists_ok {R : Pass → Pass → Prop} {x y : EStateM.Result InternalError Pass PUnit}
    (h : Meet R (fun _ _ => True) x y) (hx : x = .ok ⟨⟩ s) : ∃ t, y = .ok ⟨⟩ t ∧ R s t := by
  rw [hx] at h
  cases y with
  | ok _ t => exact ⟨t, rfl, h.2⟩
  | error e t => exact h.elim

theorem Meet.exists_error {R : Pass → Pass → Prop} {x y : EStateM.Result InternalError Pass PUnit}
    {e : InternalError} (h : Meet R (fun _ _ => True) x y) (hx : x = .error e s) :
    ∃ t, y = .error e t ∧ R s t := by
  rw [hx] at h
  cases y with
  | ok _ t => exact h.elim
  | error e' t => exact ⟨t, by rw [h.1], h.2⟩

/-- Checks that end alike go on. -/
theorem Meet.append {R : Pass → Pass → Prop} {first' rest' : List Event}
    (h : Meet R (fun _ _ => True) (s.through first) (t.through first'))
    (h' : ∀ s' t', s.through first = .ok ⟨⟩ s' → R s' t' →
      Meet R (fun _ _ => True) (s'.through rest) (t'.through rest')) :
    Meet R (fun _ _ => True) (s.through (first ++ rest)) (t.through (first' ++ rest')) := by
  cases hs : s.through first with
  | ok _ s' =>
    obtain ⟨t', ht, hR⟩ := h.exists_ok hs
    rw [through_append_of_ok hs, through_append_of_ok ht]
    exact h' s' t' hs hR
  | error e s' =>
    obtain ⟨t', ht, hR⟩ := h.exists_error hs
    rw [through_append_of_error hs, through_append_of_error ht]
    exact ⟨rfl, hR⟩

end Pass

/-! ## Types that stay -/

/-- Of expressions, only those that some events come to. -/
def Territory.typing (events : List Event) : Territory where
  opens _ := True
  symbols _ := True
  signs _ := True
  types e := .enterExpr e ∈ events
  counts := True

/-- What happens at the events gives types to no other expressions than those that they come to. -/
def Typing (events : List Event) : Prop := ∀ event ∈ events, event.Within (.typing events)

theorem Closed.typing {events : List Event} (h : Closed events) : Typing events := by
  intro event hm
  refine (h event hm).imp (fun _ _ => trivial) (fun _ _ => trivial) (fun _ _ => trivial) ?_
    fun _ => trivial
  exact fun _ he => he

theorem Typing.append {first rest : List Event} (h : Typing first) (h' : Typing rest) :
    Typing (first ++ rest) := by
  intro event hm
  rcases List.mem_append.mp hm with hm | hm
  · exact (h event hm).imp (fun _ _ => trivial) (fun _ _ => trivial) (fun _ _ => trivial)
      (fun _ => List.mem_append_left _) fun _ => trivial
  · exact (h' event hm).imp (fun _ _ => trivial) (fun _ _ => trivial) (fun _ _ => trivial)
      (fun _ => List.mem_append_right _) fun _ => trivial

theorem Node.typing (n : Node) : Typing n.events := by
  have hplain : ∀ {events : List Event}, (∀ event ∈ events, ∀ T : Territory,
      (∀ n, T.symbols n) → (∀ n, T.signs n) → event.Within T) → Typing events :=
    fun h event hm => h event hm _ (fun _ => trivial) fun _ => trivial
  cases n with
  | program p => exact p.closed.typing
  | start s => exact (Item.start s).closed.typing
  | data d => exact d.closed.typing
  | function f => exact f.closed.typing
  | params f =>
    refine hplain ?_
    intro event hm T hsymbols hsigns
    simp only [Node.events, List.mem_append, List.mem_map, List.mem_singleton] at hm
    rcases hm with ⟨d, -, rfl⟩ | rfl
    · exact hsymbols _
    · exact ⟨hsymbols _, hsigns _⟩
  | block b => exact b.closed.typing
  | assign a => exact (Stmt.assign a).closed.typing
  | branch c => exact c.closed.typing
  | whileLoop keyword cond body => exact (Stmt.whileLoop keyword cond body).closed.typing
  | doLoop keyword body cond => exact (Stmt.doLoop keyword body cond).closed.typing
  | ret keyword value => exact (Stmt.ret keyword value).closed.typing
  | yield keyword value => exact (Stmt.yield keyword value).closed.typing
  | expr e => exact e.closed.typing
  | decl d | param f d =>
    refine hplain ?_
    intro event hm T hsymbols _
    cases List.mem_singleton.mp hm
    exact hsymbols _
  | imports i | brk keyword | cont keyword | inline keyword text =>
    refine hplain ?_
    intro event hm T _ _
    cases List.mem_singleton.mp hm
    trivial

theorem Node.typingList (nodes : List Node) : Typing (nodes.flatMap Node.events) := by
  induction nodes with
  | nil =>
    intro event hm
    cases hm
  | cons n rest ih =>
    rw [List.flatMap_cons]
    exact n.typing.append ih

theorem Pass.typeOf_within {T : Territory} {events : List Event}
    (hw : ∀ event ∈ events, event.Within T) {e : Expr}
    (he : ∀ other, T.types other → other.isLiteral = false → other.id ≠ e.id) {s s' : Pass}
    (h : s.through events = .ok ⟨⟩ s') : s'.store.notes.typeOf e = s.store.notes.typeOf e := by
  have hstays := (stable_typeOf he (s.store.notes.typeOf e)).run hw (s := s) rfl
  change (Pass.after (s.through events)).store.notes.typeOf e = _ at hstays
  rwa [h] at hstays

/-- The type of an expression stays while the walk is among other nodes. -/
theorem Pass.typeOf_through {events : List Event} (ht : Typing events) {e : Expr}
    (he : e.id ∉ entered events) {s s' : Pass} (h : s.through events = .ok ⟨⟩ s') :
    s'.store.notes.typeOf e = s.store.notes.typeOf e := by
  refine Pass.typeOf_within ht ?_ h
  intro other hother _ hid
  exact he (hid ▸ mem_entered hother)

/-! ## The nodes of the parentheses -/

/-- Some events come to the node, and it is a pair of parentheses. -/
def Grouping (events : List Event) (n : NodeId) : Prop :=
  ∃ e, .enterExpr e ∈ events ∧ e.isGrouped = true ∧ e.id = n

/-- Inside of parentheses, however many, there is something else. -/
theorem Expr.exists_content : ∀ e : Expr, ∃ content, .enterExpr content ∈ e.events ∧
    content.isGrouped = false ∧ content.ungroup = e.ungroup
  | .grouped id inner => by
    obtain ⟨content, hm, hplain, hsame⟩ := inner.exists_content
    exact ⟨content, by simp [Expr.events, hm], hplain, hsame⟩
  | .literal .. | .var .. | .call .. | .binary .. | .unary .. | .cast .. | .format .. =>
    ⟨_, Expr.enterExpr_mem _, rfl, rfl⟩

theorem Expr.ungroup_mem_entered (e : Expr) : e.ungroup.id ∈ entered e.events := by
  obtain ⟨content, hm, hplain, hsame⟩ := e.exists_content
  rw [← hsame, Expr.id_ungroup hplain]
  exact mem_entered hm

/-- Where no node is entered twice, a node is entered by one event only. -/
theorem eq_of_entered {events : List Event} (hd : (entered events).Nodup) {a b : Event}
    (ha : a ∈ events) (hb : b ∈ events) {n : NodeId} (hna : a.entered? = some n)
    (hnb : b.entered? = some n) : a = b := by
  induction events with
  | nil => cases ha
  | cons event rest ih =>
    rw [entered_cons, List.nodup_append] at hd
    obtain ⟨-, hrest, hdisjoint⟩ := hd
    have hfresh : event.entered? = some n → ∀ other ∈ rest, other.entered? ≠ some n := by
      intro hevent other hm hother
      exact hdisjoint n (by simp [hevent]) n (List.mem_filterMap.mpr ⟨other, hm, hother⟩) rfl
    rcases List.mem_cons.mp ha with rfl | ha'
    · rcases List.mem_cons.mp hb with rfl | hb'
      · rfl
      · exact absurd hnb (hfresh hna b hb')
    · rcases List.mem_cons.mp hb with rfl | hb'
      · exact absurd hna (hfresh hnb a ha')
      · exact ih hrest ha' hb'

/-- The content of an expression is not among the parentheses. -/
theorem Program.not_grouping {p : Program} (hn : p.nodes.Nodup) {e : Expr}
    (he : .enterExpr e ∈ p.events) : ¬ Grouping p.events e.ungroup.id := by
  intro hgroup
  obtain ⟨g, hg, hgrouped, hid⟩ := hgroup
  obtain ⟨before, rest, hevents, -⟩ := p.holds hn he
  obtain ⟨content, hm, hplain, hsame⟩ := e.exists_content
  have hcontent : .enterExpr content ∈ p.events := by
    rw [hevents]
    simp [hm]
  have hsome : (Event.enterExpr content).entered? = some g.id := by
    rw [hid, ← hsame, Expr.id_ungroup hplain]
    rfl
  cases eq_of_entered hn hg hcontent rfl hsome
  rw [hplain] at hgrouped
  cases hgrouped

/-! ## What happens at a node itself -/

namespace Node

variable (n : Node)

theorem operands_opening : ∀ event ∈ n.opening, event.operands = [] := by
  cases n with
  | expr e => cases e <;> simp [opening, Expr.opening, Event.operands]
  | _ => simp [opening, Event.operands]

/-- The expressions whose types are read on leaving a node are children of it. -/
theorem operands_closing : ∀ event ∈ n.closing, ∀ e ∈ event.operands, expr e ∈ n.children := by
  cases n with
  | expr e => cases e <;> simp [closing, Expr.closing, Event.operands, children, Expr.parts]
  | _ => simp [closing, Event.operands, children]

theorem operands_closing_tail : ∀ event ∈ n.closing.tail, event.operands = [] := by
  cases n <;> simp [closing, Event.operands]

theorem opening_within : ∀ event ∈ n.opening, event.Within (.typing []) := by
  cases n with
  | expr e => cases e <;> simp [opening, Expr.opening, Event.Within, Territory.typing]
  | _ => simp [opening, Event.Within, Territory.typing]

end Node

namespace Pass

variable {T : Territory} {G : NodeId → Prop} (hG : ∀ e, T.types e → ¬ G e.ungroup.id)

include hG

theorem Alike.through_quiet {events : List Event}
    (hplain : ∀ event ∈ events, event.isParenthesis = false)
    (hw : ∀ event ∈ events, event.Within T) (hops : ∀ event ∈ events, event.operands = [])
    {s t : Pass} (h : Alike G s t) :
    Meet (Alike G) (fun _ _ => True) (s.through events)
      (t.through (events.map (Event.revise Expr.ungroup))) := by
  induction events generalizing s t with
  | nil => exact ⟨trivial, h⟩
  | cons event rest ih =>
    rw [List.forall_mem_cons] at hplain hw hops
    have hfirst : Meet (Alike G) (fun _ _ => True) (s.through [event])
        (t.through [event.revise Expr.ungroup]) := by
      rw [through_singleton, through_singleton]
      exact h.visit hG hplain.1 hw.1 (by simp [hops.1])
    exact hfirst.append fun s' t' _ h' => ih hplain.2 hw.2 hops.2 h'

/-- Only the first of some events has operands, and they were seen. -/
theorem Alike.through_own {events : List Event} (hplain : ∀ event ∈ events, event.isParenthesis = false)
    (hw : ∀ event ∈ events, event.Within T) (hops : ∀ event ∈ events.tail, event.operands = [])
    {s t : Pass} (hseen : ∀ event ∈ events, ∀ e ∈ event.operands, s.Seen e) (h : Alike G s t) :
    Meet (Alike G) (fun _ _ => True) (s.through events)
      (t.through (events.map (Event.revise Expr.ungroup))) := by
  cases events with
  | nil => exact ⟨trivial, h⟩
  | cons event rest =>
    rw [List.forall_mem_cons] at hplain hw hseen
    have hfirst : Meet (Alike G) (fun _ _ => True) (s.through [event])
        (t.through [event.revise Expr.ungroup]) := by
      rw [through_singleton, through_singleton]
      exact h.visit hG hplain.1 hw.1 hseen.1
    exact hfirst.append fun s' t' _ h' => h'.through_quiet hG hplain.2 hw.2 hops

end Pass

/-- On leaving parentheses their cell gets the type of what is inside. Nothing else happens. -/
theorem Pass.Alike.leave_grouped {G : NodeId → Prop} {s t : Pass} (h : Alike G s t) {g : NodeId}
    {inner : Expr} (hg : G g) (hempty : s.store.notes.types.get g = none) (hseen : s.Seen inner)
    (hne : inner.ungroup.id ≠ g) :
    ∃ s', s.through [.exitGrouped (.grouped g inner) inner, .exitExpr (.grouped g inner)] = .ok ⟨⟩ s' ∧
      Alike G s' t ∧ s'.Seen (.grouped g inner) := by
  have hover : ∀ {s' : Pass}, (Pass.visit (.exitGrouped (.grouped g inner) inner)).run s = .ok () s' →
      s.through [.exitGrouped (.grouped g inner) inner, .exitExpr (.grouped g inner)] = .ok ⟨⟩ s' := by
    intro s' hvisit
    rw [← through_singleton] at hvisit
    exact through_append_of_ok hvisit [_]
  cases htype : s.store.notes.typeOf inner with
  | none =>
    refine ⟨s, hover ?_, h, ?_⟩
    · unfold Pass.visit
      rw [run_typeOf_bind, htype]
      rfl
    · have hsame : s.store.notes.typeOf inner.ungroup = none := hseen.symm.trans htype
      exact hempty.trans hsame.symm
  | some type =>
    obtain ⟨log, hrun⟩ := recordType_run (e := .grouped g inner) type (by simp) hempty
    have hvisit : (Pass.visit (.exitGrouped (.grouped g inner) inner)).run s
        = .ok () ((s.annotating (s.store.notes.withType g type)).logged log) := by
      unfold Pass.visit
      rw [run_typeOf_bind, htype]
      exact hrun
    refine ⟨_, hover hvisit, ?_, ?_⟩
    · refine ⟨h.scopes, h.symbols, { h.notes with types := ?_ }, h.stack, h.header, h.function,
        h.diagnostics⟩
      intro n hn
      -- the cell that is written is one of parentheses, which `Alike` does not compare
      have hgn : g ≠ n := fun heq => hn (heq ▸ hg)
      change (s.store.notes.types.put g type).get n = _
      rw [Cells.get_put, if_neg hgn]
      exact h.notes.types n hn
    · change (s.store.notes.types.put g type).get g
        = (s.store.notes.withType g type).typeOf inner.ungroup
      have hsame : s.store.notes.typeOf inner.ungroup = some type := hseen.symm.trans htype
      rw [Cells.get_put, if_pos rfl, ← hsame]
      -- what is inside keeps its type, since the cell of the parentheses is another one
      cases hc : inner.ungroup with
      | literal id token given => rfl
      | _ =>
        rw [hc] at hne
        simp only [Annotations.typeOf, Annotations.withType, Cells.get_put]
        rw [if_neg (Ne.symm hne)]

/-! ## Nodes -/

/-- The cells of the nodes that some events come to are empty. -/
def Pass.Untyped (s : Pass) (events : List Event) : Prop :=
  ∀ n ∈ entered events, s.store.notes.types.get n = none

theorem Pass.Untyped.through {s s' : Pass} {first rest : List Event} (h : s.Untyped rest)
    (ht : Typing first) (hd : (entered (first ++ rest)).Nodup) (hrun : s.through first = .ok ⟨⟩ s') :
    s'.Untyped rest := by
  intro n hn
  rw [entered_append, List.nodup_append] at hd
  have hfresh : n ∉ entered first := fun hm => hd.2.2 n hm n hn rfl
  have hstays := Pass.typeOf_through (e := .grouped n default) ht hfresh hrun
  exact hstays.trans (h n hn)

theorem Pass.Seen.through {s s' : Pass} {e : Expr} (h : s.Seen e) {first rest : List Event}
    (he : .enterExpr e ∈ first) (hcontent : e.ungroup.id ∈ entered first) (ht : Typing rest)
    (hd : (entered (first ++ rest)).Nodup) (hrun : s.through rest = .ok ⟨⟩ s') : s'.Seen e := by
  rw [entered_append, List.nodup_append] at hd
  have hself : e.id ∉ entered rest := fun hm => hd.2.2 _ (mem_entered he) _ hm rfl
  have hinside : e.ungroup.id ∉ entered rest := fun hm => hd.2.2 _ hcontent _ hm rfl
  have hleft := Pass.typeOf_through ht hself hrun
  have hright := Pass.typeOf_through ht hinside hrun
  exact hleft.trans (h.trans hright.symm)

/-- Beside a check without parentheses, the check of a node stays in step, and in the end an
expression has the type of its content. -/
structure Node.Follows (p : Program) (events : List Event) (exprs : Expr → Prop) (s t : Pass) :
    Prop where
  meet : Pass.Meet (Pass.Alike (Grouping p.events)) (fun _ _ => True) (s.through events)
    (t.through (ungrouped events))
  seen : ∀ s', s.through events = .ok ⟨⟩ s' → ∀ e, exprs e → s'.Seen e

/-- This is so from all states that are alike, as long as the cells of the node are empty. -/
def Node.Transparent (p : Program) (n : Node) : Prop :=
  (∀ event ∈ n.events, event ∈ p.events) → (entered n.events).Nodup →
    ∀ s t, Pass.Alike (Grouping p.events) s t → s.Untyped n.events →
      Node.Follows p n.events (fun e => n = .expr e) s t

namespace Node

variable {p : Program}

theorem follows_list {nodes : List Node} (h : ∀ c ∈ nodes, c.Transparent p)
    (hsub : ∀ event ∈ nodes.flatMap Node.events, event ∈ p.events)
    (hd : (entered (nodes.flatMap Node.events)).Nodup) {s t : Pass}
    (halike : Pass.Alike (Grouping p.events) s t) (hempty : s.Untyped (nodes.flatMap Node.events)) :
    Follows p (nodes.flatMap Node.events) (fun e => expr e ∈ nodes) s t := by
  -- on the nodes, with both states; that cells of later nodes are still empty is what has to be
  -- carried through
  induction nodes generalizing s t with
  | nil => exact ⟨⟨trivial, halike⟩, by simp⟩
  | cons c rest ih =>
    rw [List.forall_mem_cons] at h
    rw [List.flatMap_cons] at hsub hd hempty ⊢
    rw [List.forall_mem_append] at hsub
    have hparts := hd
    rw [entered_append, List.nodup_append] at hparts
    have hfirst := h.1 hsub.1 hparts.1 s t halike fun n hn => hempty n (by simp [hn])
    have hrest : ∀ s' t', s.through c.events = .ok ⟨⟩ s' → Pass.Alike (Grouping p.events) s' t' →
        Follows p (rest.flatMap Node.events) (fun e => expr e ∈ rest) s' t' := by
      intro s' t' hrun halike'
      have hlater : s.Untyped (rest.flatMap Node.events) := fun n hn => hempty n (by simp [hn])
      exact ih h.2 hsub.2 hparts.2.1 halike' (hlater.through c.typing hd hrun)
    constructor
    · rw [ungrouped_append]
      exact hfirst.meet.append fun s' t' hrun halike' => (hrest s' t' hrun halike').meet
    · intro s' hrun e he
      obtain ⟨middle, hrun₁, hrun₂⟩ := Pass.through_append_ok hrun
      obtain ⟨t', -, halike'⟩ := hfirst.meet.exists_ok hrun₁
      rcases List.mem_cons.mp he with hc | he
      · have hseen := hfirst.seen middle hrun₁ e hc.symm
        subst hc
        exact hseen.through e.enterExpr_mem e.ungroup_mem_entered (Node.typingList rest) hd hrun₂
      · exact (hrest middle t' hrun₁ halike').seen s' hrun₂ e he

/-- A node that is no pair of parentheses does the same with operands that have none. -/
theorem transparent_plain (hn : p.nodes.Nodup) {n : Node} (h : ∀ c ∈ n.children, c.Transparent p)
    (hplain : n.isGrouped = false) : n.Transparent p := by
  intro hsub hd s t halike hempty
  have hw : ∀ event ∈ n.events, event.Within (.of p.events) := fun event hm =>
    p.closed event (hsub event hm)
  have hG : ∀ e, (Territory.of p.events).types e → ¬ Grouping p.events e.ungroup.id :=
    fun e he => p.not_grouping hn he
  have hown : ∀ event ∈ n.opening ++ n.closing, event.isParenthesis = false := fun event hm =>
    (isParenthesis_own hm).trans hplain
  rw [n.events_eq] at hsub hd hempty hw
  simp only [List.forall_mem_append] at hsub hw hown
  -- the opening writes no types, so the cells of the children are as empty as before
  have hinner : ∀ s₁ t₁, s.through n.opening = .ok ⟨⟩ s₁ → Pass.Alike (Grouping p.events) s₁ t₁ →
      Follows p (n.children.flatMap Node.events) (fun e => expr e ∈ n.children) s₁ t₁ := by
    intro s₁ t₁ hrun halike₁
    refine follows_list h hsub.2.1 ?_ halike₁ ?_
    · rw [entered_append, entered_append] at hd
      exact (List.nodup_append.mp (List.nodup_append.mp hd).2.1).1
    · intro m hm
      have hstays := Pass.typeOf_within (e := .grouped m default) n.opening_within
        (fun _ hother => by cases hother) hrun
      exact hstays.trans (hempty m (by simp [hm]))
  constructor
  · rw [n.events_eq, ungrouped_append, ungrouped_append, ungrouped_of_plain hown.1,
      ungrouped_of_plain hown.2]
    have hopening := halike.through_quiet hG hown.1 hw.1 n.operands_opening
    refine hopening.append fun s₁ t₁ hrun₁ halike₁ => ?_
    have hchildren := hinner s₁ t₁ hrun₁ halike₁
    refine hchildren.meet.append fun s₂ t₂ hrun₂ halike₂ => ?_
    refine halike₂.through_own hG hown.2 hw.2.2 n.operands_closing_tail ?_
    intro event hm e he
    exact hchildren.seen s₂ hrun₂ e (n.operands_closing event hm e he)
  · intro s' _ e he
    subst he
    exact s'.seen_of_not_grouped hplain

/-- Parentheses take the type of what is inside and do nothing else. -/
theorem transparent_grouped {g : NodeId} {inner : Expr} (h : (expr inner).Transparent p) :
    (expr (.grouped g inner)).Transparent p := by
  intro hsub hd s t halike hempty
  let closing : List Event := [.exitGrouped (.grouped g inner) inner, .exitExpr (.grouped g inner)]
  have hevents : (expr (.grouped g inner)).events
      = [.enterExpr (.grouped g inner)] ++ (inner.events ++ closing) := rfl
  have hleft : ungrouped (expr (.grouped g inner)).events = ungrouped inner.events := by
    have hopen : ungrouped [.enterExpr (.grouped g inner)] = [] := rfl
    have hclose : ungrouped closing = [] := rfl
    rw [hevents, ungrouped_append, ungrouped_append, hopen, hclose, List.nil_append, List.append_nil]
  have hover : s.through (expr (.grouped g inner)).events = s.through (inner.events ++ closing) := by
    rw [hevents]
    exact Pass.through_append_of_ok rfl _
  have hgroup : Grouping p.events g := ⟨_, hsub _ List.mem_cons_self, rfl, rfl⟩
  have hdistinct : g ∉ entered inner.events ∧ (entered inner.events).Nodup := by
    rw [hevents, entered_append, entered_append, ← List.append_assoc] at hd
    have hinside := List.nodup_cons.mp (List.nodup_append.mp hd).1
    exact hinside
  have hin : Follows p inner.events (fun e => expr inner = expr e) s t := by
    refine h (fun event hm => hsub event ?_) hdistinct.2 s t halike fun m hm => hempty m ?_
    · rw [hevents]
      exact List.mem_append_right _ (List.mem_append_left _ hm)
    · rw [hevents, entered_append, entered_append]
      exact List.mem_append_right _ (List.mem_append_left _ hm)
  -- The cell of the parentheses is empty after their content was walked over, as it was before.
  have hleave : ∀ s₁ t₁, s.through inner.events = .ok ⟨⟩ s₁ →
      Pass.Alike (Grouping p.events) s₁ t₁ →
      ∃ s₂, s₁.through closing = .ok ⟨⟩ s₂ ∧ Pass.Alike (Grouping p.events) s₂ t₁ ∧
        s₂.Seen (.grouped g inner) := by
    intro s₁ t₁ hrun halike₁
    have hstays := Pass.typeOf_through (e := .grouped g inner) inner.closed.typing hdistinct.1 hrun
    have hcell : s₁.store.notes.types.get g = none :=
      hstays.trans (hempty g List.mem_cons_self)
    refine halike₁.leave_grouped hgroup hcell (hin.seen s₁ hrun inner rfl) ?_
    intro heq
    exact hdistinct.1 (heq ▸ inner.ungroup_mem_entered)
  constructor
  · rw [hleft, hover, ← List.append_nil (ungrouped inner.events)]
    refine hin.meet.append fun s₁ t₁ hrun halike₁ => ?_
    obtain ⟨s₂, hclose, halike₂, -⟩ := hleave s₁ t₁ hrun halike₁
    rw [hclose]
    exact ⟨trivial, halike₂⟩
  · intro s' hrun e he
    cases he
    rw [hover] at hrun
    obtain ⟨s₁, hrun₁, hrun₂⟩ := Pass.through_append_ok hrun
    obtain ⟨t₁, -, halike₁⟩ := hin.meet.exists_ok hrun₁
    obtain ⟨s₂, hclose, -, hseen⟩ := hleave s₁ t₁ hrun₁ halike₁
    rw [hclose] at hrun₂
    cases hrun₂
    exact hseen

theorem transparent_of_children (hn : p.nodes.Nodup) (n : Node)
    (h : ∀ c ∈ n.children, c.Transparent p) : n.Transparent p := by
  cases hg : n.isGrouped with
  | false => exact transparent_plain hn h hg
  | true =>
    cases n with
    | expr e =>
      cases e with
      | grouped g inner => exact transparent_grouped (h (expr inner) (by simp [children, Expr.parts]))
      | _ => cases hg
    | _ => cases hg

end Node

/-- **Two checks stay in step**, one of a program and one of the program without parentheses. -/
theorem Program.check_ungroup {p : Program} (hn : p.nodes.Nodup) (literals : Cells Ty) :
    Pass.Meet (Pass.Alike (Grouping p.events)) (fun _ _ => True)
      ((Pass.check p).run (Pass.start literals)) ((Pass.check p.ungroup).run (Pass.start literals)) := by
  have hnode : (Node.program p).Transparent p :=
    p.node_induction (P := Node.Transparent p) (Node.transparent_of_children hn)
  have halike : ∀ log log', Pass.Alike (Grouping p.events) ((Pass.start literals).logged log)
      ((Pass.start literals).logged log') :=
    fun _ _ => ⟨rfl, rfl, ⟨rfl, rfl, rfl, rfl, fun _ _ => rfl⟩, rfl, rfl, rfl, rfl⟩
  have hrun := (hnode (fun _ hm => hm) hn _ _
    (halike #[.cleared p.file p.clearedNodes] #[.cleared p.file p.ungroup.clearedNodes])
    fun n _ => Cells.get_empty n).meet
  have hevents : ungrouped (Node.program p).events = p.ungroup.events := p.events_ungroup.symm
  rw [hevents] at hrun
  rw [Pass.check_eq_through, Pass.check_eq_through]
  exact hrun

/-! ## Two programs -/

theorem Annotations.Alike.trans {G H : NodeId → Prop} {a b c : Annotations} (h : a.Alike G b)
    (h' : c.Alike H b) : a.Alike (fun n => G n ∨ H n) c where
  literals := h.literals.trans h'.literals.symm
  scopes := h.scopes.trans h'.scopes.symm
  symbols := h.symbols.trans h'.symbols.symm
  signatures := h.signatures.trans h'.signatures.symm
  types n hn := (h.types n fun hG => hn (.inl hG)).trans (h'.types n fun hH => hn (.inr hH)).symm

/-- States that are like the same third one are alike. -/
theorem Pass.Alike.trans {G H : NodeId → Prop} {s t u : Pass} (h : Alike G s u) (h' : Alike H t u) :
    Alike (fun n => G n ∨ H n) s t :=
  ⟨h.scopes.trans h'.scopes.symm, h.symbols.trans h'.symbols.symm, h.notes.trans h'.notes,
    h.stack.trans h'.stack.symm, h.header.trans h'.header.symm, h.function.trans h'.function.symm,
    h.diagnostics.trans h'.diagnostics.symm⟩

section Programs

variable {p q : Program} (hp : p.nodes.Nodup) (hq : q.nodes.Nodup) (h : p.ungroup = q.ungroup)

/-- What is in parentheses in one program is somewhere in the other, in parentheses or not. -/
theorem Program.exists_counterpart (h : p.ungroup = q.ungroup) {e : Expr}
    (he : .enterExpr e ∈ p.events) (hplain : e.isGrouped = false) :
    ∃ e', .enterExpr e' ∈ q.events ∧ e'.isGrouped = false ∧ e'.ungroup = e.ungroup := by
  have hmem : .enterExpr e.ungroup ∈ q.ungroup.events := by
    rw [← h, p.events_ungroup]
    refine List.mem_map.mpr ⟨.enterExpr e, List.mem_filter.mpr ⟨he, ?_⟩, rfl⟩
    simp [Event.isParenthesis, Event.expr?, hplain]
  rw [q.events_ungroup] at hmem
  obtain ⟨event, hevent, hsame⟩ := List.mem_map.mp hmem
  obtain ⟨hm, hkept⟩ := List.mem_filter.mp hevent
  cases event with
  | enterExpr e' =>
    exact ⟨e', hm, by simpa [Event.isParenthesis, Event.expr?] using hkept,
      Event.enterExpr.inj hsame⟩
  | _ => cases hsame

include hp hq h

theorem Program.check_regrouped (literals : Cells Ty) :
    Pass.Meet (Pass.Alike fun n => Grouping p.events n ∨ Grouping q.events n) (fun _ _ => True)
      ((Pass.check p).run (Pass.start literals)) ((Pass.check q).run (Pass.start literals)) := by
  have hleft := p.check_ungroup hp literals
  have hright := q.check_ungroup hq literals
  rw [← h] at hright
  cases hs : (Pass.check p).run (Pass.start literals) with
  | ok _ s =>
    obtain ⟨u, hu, hsu⟩ := hleft.exists_ok hs
    rw [hu] at hright
    cases ht : (Pass.check q).run (Pass.start literals) with
    | ok _ t =>
      rw [ht] at hright
      exact ⟨trivial, hsu.trans hright.2⟩
    | error e t =>
      rw [ht] at hright
      exact hright.elim
  | error e s =>
    obtain ⟨u, hu, hsu⟩ := hleft.exists_error hs
    rw [hu] at hright
    cases ht : (Pass.check q).run (Pass.start literals) with
    | ok _ t =>
      rw [ht] at hright
      exact hright.elim
    | error e' t =>
      rw [ht] at hright
      exact ⟨hright.1.symm, hsu.trans hright.2⟩

end Programs

/-- An analysis stops where the check from nothing stops. -/
theorem Store.analyze_error_iff (store : Store) (p : Program) (e : InternalError) :
    (store.analyze p).1 = .error e ↔
      Pass.failure? ((Pass.check p).run (Pass.start store.notes.literals)) = some e := by
  rw [store.analyze_eq_link (p.literalsAgree_literals store.notes)]
  cases (Pass.check p).run (Pass.start store.notes.literals) <;> simp [Pass.failure?]

/-- The cell of an expression after an analysis is the one after the check, even if the check
stopped. -/
theorem Store.typeOf_analyzed (store : Store) {p : Program} {e : Expr} (he : .enterExpr e ∈ p.events) :
    (store.analyze p).2.notes.typeOf e
      = if e.isLiteral then store.notes.typeOf e
        else (Pass.after ((Pass.check p).run (Pass.start store.notes.literals))).store.notes.types.get
          e.id := by
  have hsecond : (store.analyze p).2 = store.grown p
      (Pass.after ((Pass.check p).run (Pass.start store.notes.literals))).store := by
    rw [store.analyze_eq_link (p.literalsAgree_literals store.notes)]
    cases (Pass.check p).run (Pass.start store.notes.literals) <;> rfl
  rw [hsecond]
  cases hl : e.isLiteral with
  | true => exact store.literals_grown _ hl
  | false => exact store.types_grown _ he hl

/-- A pair of parentheses ends with the type of what is inside, once an analysis went through. -/
theorem Store.typeOf_grouped {store after : Store} {p : Program} {a : Analysis}
    (hn : p.nodes.Nodup) (h : store.analyze p = (.ok a, after)) {g : NodeId} {inner : Expr}
    (he : .enterExpr (.grouped g inner) ∈ p.events) :
    after.notes.typeOf (.grouped g inner) = after.notes.typeOf inner := by
  obtain ⟨horderly, -, -, -, hout⟩ := Store.analyze_outcome hn h
  obtain ⟨before, rest, hevents, -⟩ := p.holds hn he
  have hsplit : p.events = (before ++ .enterExpr (.grouped g inner) :: inner.events) ++
      (Expr.grouped g inner).closing :: .exitExpr (.grouped g inner) :: rest := by
    rw [hevents]
    simp [Expr.events, Expr.closing]
  have hinner : .enterExpr inner ∈ p.events := by
    rw [hsplit]
    simp [inner.enterExpr_mem]
  rw [hout.types _ he, hout.types _ hinner]
  rw [hsplit, Outline.orderly_append] at horderly
  rw [hsplit, Outline.run_append]
  exact Outline.typeOf_closing horderly.2

/-- **Parentheses are transparent.** Take two programs that are the same without parentheses. An
analysis stops at the same error in both, or goes through in both, and then reports the same, in the
same order, and dumps the same; a pair of parentheses has the type and the place of what is inside.
Whether it goes through or not, every expression that is no pair of parentheses ends with the same
type in both. -/
theorem analyze_ignores_parentheses (store : Store) {p q : Program} (hp : p.nodes.Nodup)
    (hq : q.nodes.Nodup) (h : p.ungroup = q.ungroup) :
    (∀ e, (store.analyze p).1 = .error e ↔ (store.analyze q).1 = .error e) ∧
    (∀ a after, store.analyze p = (.ok a, after) →
      ∃ b after', store.analyze q = (.ok b, after') ∧ b.diagnostics = a.diagnostics ∧
        (∃ text, after.dump a = .ok text ∧ after'.dump b = .ok text) ∧
        ∀ g inner, .enterExpr (.grouped g inner) ∈ p.events →
          after.notes.typeOf (.grouped g inner) = after.notes.typeOf inner ∧
            (Expr.grouped g inner).position = inner.position) ∧
    ∀ e, .enterExpr e ∈ p.events → e.isGrouped = false →
      ∃ e', .enterExpr e' ∈ q.events ∧ e'.isGrouped = false ∧ e'.ungroup = e.ungroup ∧
        (store.analyze q).2.notes.typeOf e' = (store.analyze p).2.notes.typeOf e := by
  -- the two programs meet at the one without parentheses
  have hmeet := Program.check_regrouped hp hq h store.notes.literals
  refine ⟨?_, ?_, ?_⟩
  · intro e
    rw [store.analyze_error_iff, store.analyze_error_iff, hmeet.ends.1]
  · intro a after hok
    obtain ⟨s, hs, -, rfl, rfl⟩ := Store.analyze_state hp hok
    obtain ⟨t, ht, halike⟩ := hmeet.exists_ok hs
    have hok' := store.analyze_eq_link (q.literalsAgree_literals store.notes)
    rw [ht] at hok'
    have hdump := Store.dump_congr hok hok' halike.scopes fun _ ref _ => halike.describe ref
    have htext := Store.dump_analyzed hok
    refine ⟨_, _, hok', halike.diagnostics.symm, ⟨_, htext, hdump ▸ htext⟩, ?_⟩
    intro g inner he
    exact ⟨Store.typeOf_grouped hp hok he, rfl⟩
  · intro e he hplain
    obtain ⟨e', he', hplain', hsame⟩ := Program.exists_counterpart h he hplain
    refine ⟨e', he', hplain', hsame, ?_⟩
    have hid : e'.id = e.id := by rw [← Expr.id_ungroup hplain', hsame, Expr.id_ungroup hplain]
    have hlit : e'.isLiteral = e.isLiteral := by
      rw [← Expr.isLiteral_ungroup hplain', hsame, Expr.isLiteral_ungroup hplain]
    have hgiven : store.notes.typeOf e' = store.notes.typeOf e := by
      rw [← store.notes.typeOf_ungroup hplain', hsame, store.notes.typeOf_ungroup hplain]
    -- no cell of an expression is that of parentheses, in neither program, because nodes occur once
    have houtside : ¬ (Grouping p.events e.id ∨ Grouping q.events e.id) := by
      have hleft := p.not_grouping hp he
      have hright := q.not_grouping hq he'
      rw [Expr.id_ungroup hplain] at hleft
      rw [Expr.id_ungroup hplain', hid] at hright
      exact fun hor => hor.elim hleft hright
    rw [store.typeOf_analyzed he, store.typeOf_analyzed he', hlit, hgiven, hid,
      hmeet.ends.2.notes.types _ houtside]

/-- A number and a name that nobody declared. -/
def summand : Expr := .literal 4 ⟨.integerLiteral, "1", ⟨"group.dk", 1, 10⟩⟩ (some .int)

def undeclared : Expr := .var 5 105 ⟨"m", ⟨"group.dk", 1, 15⟩⟩

/-- Data with an initial value, and a block with an expression in it. -/
def framed (init value : Expr) : Program :=
  { id := 0
    file := "group.dk"
    items :=
      [.data
        { decl := ⟨1, false, ⟨.integerType, "int", ⟨"group.dk", 1, 1⟩⟩, ⟨"n", ⟨"group.dk", 1, 5⟩⟩⟩
          init := some init },
      .start
        { keyword := ⟨.startWord, "start", ⟨"group.dk", 2, 1⟩⟩
          body := .mk 2 ⟨.leftBrace, "\x7b", ⟨"group.dk", 2, 7⟩⟩ [.expr value] }] }

/-- A sum in which one operand stands in parentheses. -/
def bracketed : Program :=
  framed
    (.grouped 6 (.binary 3 .add ⟨.plus, "+", ⟨"group.dk", 1, 12⟩⟩ summand (.grouped 7 undeclared)))
    (.unary 8 .minus ⟨.minus, "-", ⟨"group.dk", 3, 3⟩⟩ (.var 9 109 ⟨"n", ⟨"group.dk", 3, 5⟩⟩))

/-- The same sum, with two pairs around the other operand, and with parentheses elsewhere. -/
def rebracketed : Program :=
  framed
    (.binary 3 .add ⟨.plus, "+", ⟨"group.dk", 1, 12⟩⟩ (.grouped 10 (.grouped 11 summand)) undeclared)
    (.grouped 12
      (.unary 8 .minus ⟨.minus, "-", ⟨"group.dk", 3, 3⟩⟩
        (.grouped 13 (.var 9 109 ⟨"n", ⟨"group.dk", 3, 5⟩⟩))))

/-- The one mistake is reported in both, and the dumps are the same. -/
theorem rebracketed_like_bracketed :
    bracketed.nodes.Nodup ∧ rebracketed.nodes.Nodup ∧ bracketed.ungroup = rebracketed.ungroup ∧
      ∃ a after b after', ({} : Store).analyze bracketed = (.ok a, after) ∧
        ({} : Store).analyze rebracketed = (.ok b, after') ∧ a.diagnostics.errorCount = 1 ∧
        b.diagnostics = a.diagnostics ∧ after.dump a = .ok "context #0\n  data int n refs=1\n" ∧
        after'.dump b = .ok "context #0\n  data int n refs=1\n" := by
  have hp : bracketed.nodes.Nodup := by decide
  have hq : rebracketed.nodes.Nodup := by decide
  have hsame : bracketed.ungroup = rebracketed.ungroup := rfl
  have hl : bracketed.untyped? ({} : Store).notes.literals = none := rfl
  obtain ⟨a, after, hok⟩ : ∃ a after, ({} : Store).analyze bracketed = (.ok a, after) := by
    obtain ⟨s, -, -, hok⟩ := Store.analyze_ok hp (by decide) hl
    exact ⟨_, _, hok⟩
  obtain ⟨-, hboth, -⟩ := analyze_ignores_parentheses {} hp hq hsame
  obtain ⟨b, after', hok', hds, ⟨text, hdump, hdump'⟩, -⟩ := hboth a after hok
  have herrors : (({} : Store).analyze bracketed).1.toOption.map (·.diagnostics.errorCount)
      = some 1 := by
    decide +kernel
  have hdumped : after.dump a = .ok "context #0\n  data int n refs=1\n" :=
    Store.dump_of_listings hok (by decide +kernel)
  rw [hok] at herrors
  cases hdump.symm.trans hdumped
  exact ⟨hp, hq, hsame, a, after, b, after', hok, hok', Option.some.inj herrors, hds, hdumped, hdump'⟩

end Semant
