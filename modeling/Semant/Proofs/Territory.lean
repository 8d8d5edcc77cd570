import Semant.Proofs.Clearing
import Semant.Proofs.Occurrences

/-!
# The nodes that a check touches

A check reads cells of a tree and fills them. Which ones, can be told from the event that it is at:
an assignment needs the symbol of its target and the type of its value, a call the types of its
arguments, and so on. `Event.Within` says it for one event.

For a whole tree the answer is simple, and `Program.closed` gives it: whatever a check of a program
touches belongs to a node that the walk has entered, under the same kind of event that empties the
cell beforehand. So nothing that is left in the cells of other trees can reach the check, and nothing
that an earlier check left in the cells of this one.
-/

set_option autoImplicit false

namespace Semant

/-- The nodes whose cells a check reads and fills. -/
structure Territory where
  /-- Nodes that get scopes. -/
  opens : NodeId → Prop
  /-- Nodes that declare or use names. -/
  symbols : NodeId → Prop
  /-- Nodes that get signatures. -/
  signs : NodeId → Prop
  /-- Expressions whose types are read. Those that are not literals also get types. -/
  types : Expr → Prop
  /-- Whether names are used at all, as opposed to declared. -/
  counts : Prop

/-- What happens at an event stays inside a territory. -/
def Event.Within (T : Territory) : Event → Prop
  | .enterProgram p => T.opens p.id
  | .enterBlock b => T.opens b.id
  | .enterDecl d | .enterParam _ d => T.symbols d.id
  | .enterFunction f => T.symbols f.id ∧ T.opens f.id
  | .exitParams f => T.symbols f.id ∧ T.signs f.id
  | .exitData d => T.symbols d.decl.id ∧ ∀ e ∈ d.init, T.types e
  | .enterAssign a => T.symbols a.id ∧ T.counts
  | .exitAssign a => T.symbols a.id ∧ T.types a.value
  | .exitReturn _ value => ∀ e ∈ value, T.types e
  | .exitLiteral e _ => T.types e
  | .enterVariable e _ | .enterCall e _ _ => T.symbols e.nameNode ∧ T.counts
  | .exitVariable e _ => T.symbols e.nameNode ∧ T.types e ∧ e.isLiteral = false
  | .exitCall e _ args => T.symbols e.nameNode ∧ (T.types e ∧ e.isLiteral = false) ∧ ∀ a ∈ args, T.types a
  | .exitBinary e _ _ lhs rhs => (T.types e ∧ e.isLiteral = false) ∧ T.types lhs ∧ T.types rhs
  | .exitUnary e _ _ operand | .exitCast e _ operand | .exitGrouped e operand =>
    (T.types e ∧ e.isLiteral = false) ∧ T.types operand
  | .exitFormat e _ _ => T.types e ∧ e.isLiteral = false
  | _ => True

theorem Event.entered?_of_mentions {event : Event} {n : NodeId} (h : event.mentions? = some n) :
    event.entered? = some n := by
  cases event with
  | enterDecl d => exact h
  | enterParam f d => exact h
  | enterFunction f => exact h
  | enterAssign a => exact h
  | enterVariable e name => exact h
  | enterCall e callee args => exact h
  | _ => cases h

theorem Event.entered?_of_opens {event : Event} {n : NodeId} (h : event.opens? = some n) :
    event.entered? = some n := by
  cases event with
  | enterProgram p => exact h
  | enterFunction f => exact h
  | enterBlock block => exact h
  | _ => cases h

/-- The nodes that some events come to. -/
def Territory.of (events : List Event) : Territory where
  opens n := ∃ event ∈ events, event.opens? = some n
  symbols n := ∃ event ∈ events, event.mentions? = some n
  signs n := ∃ f, .enterFunction f ∈ events ∧ f.id = n
  types e := .enterExpr e ∈ events
  counts := True

/-- What stays inside a territory stays inside a larger one. -/
theorem Event.Within.imp {T T' : Territory} (hopens : ∀ n, T.opens n → T'.opens n)
    (hsymbols : ∀ n, T.symbols n → T'.symbols n) (hsigns : ∀ n, T.signs n → T'.signs n)
    (htypes : ∀ e, T.types e → T'.types e) (hcounts : T.counts → T'.counts) {event : Event}
    (hw : event.Within T) : event.Within T' := by
  cases event with
  | enterProgram p => exact hopens _ hw
  | enterBlock block => exact hopens _ hw
  | enterDecl d => exact hsymbols _ hw
  | enterParam f d => exact hsymbols _ hw
  | enterFunction f => exact ⟨hsymbols _ hw.1, hopens _ hw.2⟩
  | exitParams f => exact ⟨hsymbols _ hw.1, hsigns _ hw.2⟩
  | exitData d => exact ⟨hsymbols _ hw.1, fun e he => htypes e (hw.2 e he)⟩
  | enterAssign a => exact ⟨hsymbols _ hw.1, hcounts hw.2⟩
  | exitAssign a => exact ⟨hsymbols _ hw.1, htypes _ hw.2⟩
  | exitReturn keyword value => exact fun e he => htypes e (hw e he)
  | exitLiteral e token => exact htypes e hw
  | enterVariable e name => exact ⟨hsymbols _ hw.1, hcounts hw.2⟩
  | enterCall e callee args => exact ⟨hsymbols _ hw.1, hcounts hw.2⟩
  | exitVariable e name => exact ⟨hsymbols _ hw.1, htypes e hw.2.1, hw.2.2⟩
  | exitCall e callee args =>
    exact ⟨hsymbols _ hw.1, ⟨htypes e hw.2.1.1, hw.2.1.2⟩, fun a ha => htypes a (hw.2.2 a ha)⟩
  | exitBinary e op token lhs rhs =>
    exact ⟨⟨htypes e hw.1.1, hw.1.2⟩, htypes lhs hw.2.1, htypes rhs hw.2.2⟩
  | exitUnary e op token operand => exact ⟨⟨htypes e hw.1.1, hw.1.2⟩, htypes operand hw.2⟩
  | exitCast e target operand => exact ⟨⟨htypes e hw.1.1, hw.1.2⟩, htypes operand hw.2⟩
  | exitGrouped e inner => exact ⟨⟨htypes e hw.1.1, hw.1.2⟩, htypes inner hw.2⟩
  | exitFormat e token args => exact ⟨htypes e hw.1, hw.2⟩
  | _ => trivial

theorem Event.Within.mono {first more : List Event} (h : ∀ event ∈ first, event ∈ more)
    {event : Event} (hw : event.Within (.of first)) : event.Within (.of more) := by
  refine hw.imp ?_ ?_ ?_ ?_ fun _ => trivial
  · rintro n ⟨other, hm, hn⟩
    exact ⟨other, h other hm, hn⟩
  · rintro n ⟨other, hm, hn⟩
    exact ⟨other, h other hm, hn⟩
  · rintro n ⟨f, hm, hn⟩
    exact ⟨f, h _ hm, hn⟩
  · intro e hm
    exact h _ hm

/-! ## Trees touch nothing but their own nodes -/

/-- What happens at the events stays among the nodes that they come to. -/
def Closed (events : List Event) : Prop := ∀ event ∈ events, event.Within (.of events)

theorem Closed.append {first rest : List Event} (h : Closed first) (h' : Closed rest) :
    Closed (first ++ rest) := by
  intro event hm
  rcases List.mem_append.mp hm with hm | hm
  · exact (h event hm).mono fun _ => List.mem_append_left _
  · exact (h' event hm).mono fun _ => List.mem_append_right _

/-- The parts of a node are closed, and so is what happens at the node itself. -/
theorem Closed.node {parts whole : List Event} (h : Closed parts)
    (hparts : ∀ event ∈ parts, event ∈ whole)
    (hown : ∀ event ∈ whole, event ∈ parts ∨ event.Within (.of whole)) : Closed whole := by
  intro event hm
  rcases hown event hm with hp | hw
  · exact (h event hp).mono hparts
  · exact hw

theorem closed_nil : Closed [] := by
  intro event hm
  cases hm

theorem Expr.enter_mem_list {es : List Expr} {e : Expr} (h : e ∈ es) :
    .enterExpr e ∈ Expr.eventsOfList es := by
  induction es with
  | nil => cases h
  | cons first rest ih =>
    rcases List.mem_cons.mp h with rfl | h
    · exact List.mem_append_left _ e.enterExpr_mem
    · exact List.mem_append_right _ (ih h)

theorem Expr.enter_mem_option {value : Option Expr} {e : Expr} (h : e ∈ value) :
    .enterExpr e ∈ Expr.eventsOfOption value := by
  cases h
  exact e.enterExpr_mem

theorem Expr.inner_subset (e : Expr) : ∀ event ∈ e.inner, event ∈ e.events := by
  intro event hm
  rw [e.events_eq]
  simp [hm]

/-- A use of a name is about the node that it is written under. -/
theorem Expr.within_opening (e : Expr) :
    ∀ event ∈ e.opening, event.Within (.of e.events) := by
  have hsub : ∀ event ∈ e.opening, event ∈ e.events := by
    intro event hm
    rw [e.events_eq]
    simp [hm]
  intro event hm
  have hmem := hsub event hm
  cases e with
  | var id node name =>
    cases List.mem_singleton.mp hm
    exact ⟨⟨_, hmem, rfl⟩, trivial⟩
  | call id node callee args =>
    cases List.mem_singleton.mp hm
    exact ⟨⟨_, hmem, rfl⟩, trivial⟩
  | _ => cases hm

/-- On leaving an expression its own cells are touched and the types of its operands. -/
theorem Expr.within_closing (e : Expr) : e.closing.Within (.of e.events) := by
  have hown := e.enterExpr_mem
  have hinner := e.inner_subset
  cases e with
  | literal id token given => exact hown
  | var id node name =>
    exact ⟨⟨.enterVariable (.var id node name) name, by simp [Expr.events], rfl⟩, hown, rfl⟩
  | call id node callee args =>
    refine ⟨⟨.enterCall (.call id node callee args) callee args, by simp [Expr.events], rfl⟩,
      ⟨hown, rfl⟩, ?_⟩
    intro a ha
    exact hinner _ (Expr.enter_mem_list ha)
  | binary id op token lhs rhs =>
    exact ⟨⟨hown, rfl⟩, hinner _ (List.mem_append_left _ lhs.enterExpr_mem),
      hinner _ (List.mem_append_right _ rhs.enterExpr_mem)⟩
  | unary id op token operand => exact ⟨⟨hown, rfl⟩, hinner _ operand.enterExpr_mem⟩
  | cast id target operand => exact ⟨⟨hown, rfl⟩, hinner _ operand.enterExpr_mem⟩
  | grouped id operand => exact ⟨⟨hown, rfl⟩, hinner _ operand.enterExpr_mem⟩
  | format id token args => exact ⟨hown, rfl⟩

theorem Expr.closed_of_inner {e : Expr} (h : Closed e.inner) : Closed e.events := by
  refine h.node e.inner_subset ?_
  intro event hm
  rw [e.events_eq] at hm
  simp only [List.mem_append, List.mem_cons, List.not_mem_nil, or_false] at hm
  rcases hm with rfl | hm | hm | rfl | rfl
  · exact .inr trivial
  · exact .inr (e.within_opening event hm)
  · exact .inl hm
  · exact .inr e.within_closing
  · exact .inr trivial

mutual

theorem Expr.closed : ∀ e : Expr, Closed e.events
  | .literal .. | .var .. => Expr.closed_of_inner closed_nil
  | .call _ _ _ args => Expr.closed_of_inner (Expr.closedList args)
  | .binary _ _ _ lhs rhs => Expr.closed_of_inner (lhs.closed.append rhs.closed)
  | .unary _ _ _ operand => Expr.closed_of_inner operand.closed
  | .cast _ _ operand => Expr.closed_of_inner operand.closed
  | .grouped _ inner => Expr.closed_of_inner inner.closed
  | .format _ _ args => Expr.closed_of_inner (Expr.closedList args)

theorem Expr.closedList : ∀ es : List Expr, Closed (Expr.eventsOfList es)
  | [] => closed_nil
  | e :: rest => e.closed.append (Expr.closedList rest)

end

theorem Expr.closedOption : ∀ e : Option Expr, Closed (Expr.eventsOfOption e)
  | none => closed_nil
  | some e => e.closed

theorem DataDef.closed (d : DataDef) : Closed d.events := by
  have hinit : ∀ event ∈ Expr.eventsOfOption d.init, event ∈ d.events := by
    intro event hm
    simp [DataDef.events, hm]
  have hsymbol : (Territory.of d.events).symbols d.decl.id :=
    ⟨.enterDecl d.decl, by simp [DataDef.events], rfl⟩
  refine (Expr.closedOption d.init).node hinit ?_
  intro event hm
  simp only [DataDef.events, List.mem_append, List.mem_cons, List.not_mem_nil, or_false] at hm
  rcases hm with ((rfl | rfl) | hm) | rfl
  · exact .inr trivial
  · exact .inr hsymbol
  · exact .inl hm
  · exact .inr ⟨hsymbol, fun e he => hinit _ (Expr.enter_mem_option he)⟩

/-- A statement that has no cells of its own is closed if its parts are. -/
theorem Closed.unnumbered {parts whole : List Event} (h : Closed parts)
    (hparts : ∀ event ∈ parts, event ∈ whole)
    (hown : ∀ event ∈ whole, event ∈ parts ∨ ∀ T, event.Within T) : Closed whole := by
  refine h.node hparts ?_
  intro event hm
  exact (hown event hm).imp_right fun hw => hw _

mutual

theorem Stmt.closed : ∀ s : Stmt, Closed s.events
  | .data definition => definition.closed
  | .assign a => by
    have hvalue : ∀ event ∈ a.value.events, event ∈ (Stmt.assign a).events := by
      intro event hm
      simp [Stmt.events, hm]
    -- the first event of the assignment puts its cell into the territory, and the last one may use
    -- it
    have hsymbol : (Territory.of (Stmt.assign a).events).symbols a.id :=
      ⟨.enterAssign a, by simp [Stmt.events], rfl⟩
    refine a.value.closed.node hvalue ?_
    intro event hm
    simp only [Stmt.events, List.mem_append, List.mem_cons, List.not_mem_nil, or_false] at hm
    rcases hm with rfl | hm | rfl
    · exact .inr ⟨hsymbol, trivial⟩
    · exact .inl hm
    · exact .inr ⟨hsymbol, hvalue _ a.value.enterExpr_mem⟩
  | .expr value => value.closed
  | .branch conditional => conditional.closed
  | .whileLoop keyword cond body =>
    ((Expr.closedOption cond).append body.closed).unnumbered (by grind [Stmt.events])
      (by grind [Stmt.events, Event.Within])
  | .doLoop keyword body cond =>
    (body.closed.append (Expr.closedOption cond)).unnumbered (by grind [Stmt.events])
      (by grind [Stmt.events, Event.Within])
  | .ret keyword value => by
    have hvalue : ∀ event ∈ Expr.eventsOfOption value, event ∈ (Stmt.ret keyword value).events := by
      intro event hm
      simp [Stmt.events, hm]
    refine (Expr.closedOption value).node hvalue ?_
    intro event hm
    simp only [Stmt.events, List.mem_append, List.mem_cons, List.not_mem_nil, or_false] at hm
    rcases hm with hm | rfl
    · exact .inl hm
    · exact .inr fun e he => hvalue _ (Expr.enter_mem_option he)
  | .yield keyword value =>
    (Expr.closedOption value).unnumbered (by grind [Stmt.events])
      (by grind [Stmt.events, Event.Within])
  | .brk keyword | .cont keyword | .inline keyword text =>
    closed_nil.unnumbered (by simp) (by simp [Stmt.events, Event.Within])
  | .block body => body.closed

theorem Block.closed : ∀ b : Block, Closed b.events
  | .mk id brace body => by
    have hbody : ∀ event ∈ Stmt.eventsOfList body, event ∈ (Block.mk id brace body).events := by
      intro event hm
      simp [Block.events, hm]
    refine (Stmt.closedList body).node hbody ?_
    intro event hm
    simp only [Block.events, List.mem_append, List.mem_cons, List.not_mem_nil, or_false] at hm
    rcases hm with rfl | hm | rfl
    · exact .inr ⟨_, List.mem_cons_self, rfl⟩
    · exact .inl hm
    · exact .inr trivial

theorem Stmt.closedList : ∀ body : List Stmt, Closed (Stmt.eventsOfList body)
  | [] => closed_nil
  | s :: rest => s.closed.append (Stmt.closedList rest)

theorem Conditional.closed : ∀ c : Conditional, Closed c.events
  | .mk keyword cond body otherwise =>
    ((cond.closed.append body.closed).append otherwise.closed).unnumbered
      (by grind [Conditional.events]) (by grind [Conditional.events, Event.Within])

theorem Else.closed : ∀ e : Else, Closed e.events
  | .none => closed_nil
  | .elseIf next => next.closed
  | .block body => body.closed

end

theorem Function.closedParams (f : Function) (params : List Decl) :
    Closed (params.map (Event.enterParam f)) := by
  intro event hm
  obtain ⟨d, hd, rfl⟩ := List.mem_map.mp hm
  exact ⟨_, hm, rfl⟩

theorem Function.closed (f : Function) : Closed f.events := by
  have hparts : ∀ event ∈ f.params.map (Event.enterParam f) ++ f.body.events,
      event ∈ f.events := by
    intro event hm
    rcases List.mem_append.mp hm with hm | hm
    · exact List.mem_cons_of_mem _ (List.mem_append_left _ hm)
    · simp [Function.events, hm]
  have hsymbol : (Territory.of f.events).symbols f.id := ⟨_, List.mem_cons_self, rfl⟩
  refine ((f.closedParams f.params).append f.body.closed).node hparts ?_
  intro event hm
  simp only [Function.events, List.mem_append, List.mem_cons, List.not_mem_nil, or_false] at hm ⊢
  rcases hm with rfl | hm | rfl | hm | rfl
  · exact .inr ⟨hsymbol, _, List.mem_cons_self, rfl⟩
  · exact .inl (.inl hm)
  · exact .inr ⟨hsymbol, f, List.mem_cons_self, rfl⟩
  · exact .inl (.inr hm)
  · exact .inr trivial

theorem Item.closed : ∀ item : Item, Closed item.events
  | .imports i => closed_nil.unnumbered (by simp) (by simp [Item.events, Event.Within])
  | .data definition => definition.closed
  | .function f => f.closed
  | .start s =>
    s.body.closed.unnumbered (by grind [Item.events]) (by grind [Item.events, Event.Within])

theorem Item.closedList : ∀ items : List Item, Closed (items.flatMap Item.events)
  | [] => closed_nil
  | item :: rest => by
    rw [List.flatMap_cons]
    exact item.closed.append (Item.closedList rest)

/-- **A check of a program touches nothing but the nodes of the program.** -/
theorem Program.closed (p : Program) : Closed p.events := by
  have hitems : ∀ event ∈ p.items.flatMap Item.events, event ∈ p.events := by
    intro event hm
    exact List.mem_cons_of_mem _ (List.mem_append_left _ hm)
  refine (Item.closedList p.items).node hitems ?_
  intro event hm
  simp only [Program.events, List.mem_append, List.mem_cons, List.not_mem_nil, or_false] at hm
  rcases hm with rfl | hm | rfl
  · exact .inr ⟨_, List.mem_cons_self, rfl⟩
  · exact .inl hm
  · exact .inr trivial

end Semant
