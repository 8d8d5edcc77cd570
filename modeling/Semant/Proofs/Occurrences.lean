import Semant.Proofs.Nodes

/-!
# Where an expression occurs

A walk is over with an expression before it goes on, so the events of an expression stand in a row
in the walk over the whole program. Where no node occurs twice, the events of this row are also the
only ones that are about the expression, or about anything inside it.
-/

set_option autoImplicit false

namespace Semant

/-- The events of the expression stand in a row, and no other event is about it. -/
def Holds (events : List Event) (e : Expr) : Prop :=
  ∃ before rest, events = before ++ (e.events ++ rest) ∧
    (∀ event ∈ before, event.subject? ≠ some e.id) ∧ ∀ event ∈ rest, event.subject? ≠ some e.id

theorem Holds.extend {events : List Event} {e : Expr} (h : Holds events e) (before rest : List Event)
    (hb : ∀ event ∈ before, event.subject? ≠ some e.id)
    (hr : ∀ event ∈ rest, event.subject? ≠ some e.id) : Holds (before ++ (events ++ rest)) e := by
  obtain ⟨first, last, rfl, hf, hl⟩ := h
  refine ⟨before ++ first, last ++ rest, by simp, ?_, ?_⟩
  · intro event hm
    exact (List.mem_append.mp hm).elim (hb event) (hf event)
  · intro event hm
    exact (List.mem_append.mp hm).elim (hl event) (hr event)

/-- As long as no node is entered twice, every expression stands in a row. -/
def Located (events : List Event) : Prop :=
  (entered events).Nodup → ∀ e, .enterExpr e ∈ events → Holds events e

theorem located_nil : Located [] := by
  intro _ e hm
  cases hm

theorem mem_entered {events : List Event} {e : Expr} (h : .enterExpr e ∈ events) :
    e.id ∈ entered events :=
  List.mem_filterMap.mpr ⟨_, h, rfl⟩

theorem Located.append {first rest : List Event} (h : Located first) (h' : Located rest)
    (hg : Grounded first) (hg' : Grounded rest) : Located (first ++ rest) := by
  intro hn e hm
  rw [entered_append, List.nodup_append] at hn
  obtain ⟨hfirst, hrest, hdisjoint⟩ := hn
  rcases List.mem_append.mp hm with hm | hm
  · have hx := (h hfirst e hm).extend [] rest (by simp) ?_
    · simpa using hx
    · intro event he hs
      exact hdisjoint _ (mem_entered hm) _ (hg' event he _ hs) rfl
  · have hx := (h' hrest e hm).extend first [] ?_ (by simp)
    · simpa using hx
    · intro event he hs
      exact hdisjoint _ (hg event he _ hs) _ (mem_entered hm) rfl

/-- Events around some others, which enter no expression and are about what was entered first. -/
theorem Located.around {parts : List Event} (h : Located parts) (first last : List Event)
    (hexpr : ∀ event ∈ first ++ last, ∀ e, event ≠ .enterExpr e)
    (hown : ∀ event ∈ first ++ last, ∀ n, event.subject? = some n → n ∈ entered first) :
    Located (first ++ (parts ++ last)) := by
  intro hn e hm
  simp only [entered_append, List.nodup_append] at hn
  obtain ⟨-, ⟨hparts, -, -⟩, hdisjoint⟩ := hn
  have hin : .enterExpr e ∈ parts := by
    simp only [List.mem_append] at hm
    rcases hm with hm | hm | hm
    · exact absurd rfl (hexpr _ (List.mem_append_left _ hm) e)
    · exact hm
    · exact absurd rfl (hexpr _ (List.mem_append_right _ hm) e)
  have hother : ∀ event ∈ first ++ last, event.subject? ≠ some e.id := by
    intro event he hs
    exact hdisjoint _ (hown event he _ hs) _ (by simp [mem_entered hin]) rfl
  exact (h hparts e hin).extend first last
    (fun event he => hother event (List.mem_append_left _ he))
    (fun event he => hother event (List.mem_append_right _ he))

/-! ## The rows of a program -/

/-- Nothing inside an expression is about the expression. -/
theorem Expr.id_notMem_inner {e : Expr} (h : (entered e.events).Nodup) : e.id ∉ entered e.inner := by
  rw [events_eq, entered_cons] at h
  intro hm
  exact (List.nodup_cons.mp h).1 (by simp [hm])

theorem Expr.located_of_inner {e : Expr} (h : Located e.inner) : Located e.events := by
  intro hn x hm
  have hnot := Expr.id_notMem_inner hn
  rw [e.events_eq] at hm hn
  rcases List.mem_cons.mp hm with hx | hm
  · cases hx
    exact ⟨[], [], by simp, by simp, by simp⟩
  · have hin : .enterExpr x ∈ e.inner := by
      have hown := e.own_events
      simp only [List.mem_append] at hm hown
      rcases hm with hm | hm | hm
      · exact absurd rfl ((hown _ (Or.inl hm)).2 x)
      · exact hm
      · exact absurd rfl ((hown _ (Or.inr hm)).2 x)
    have hne : e.id ≠ x.id := fun heq => hnot (heq ▸ mem_entered hin)
    have hother : ∀ event ∈ e.opening ++ [e.closing, .exitExpr e], event.subject? ≠ some x.id := by
      intro event he hs
      exact hne (Option.some.inj ((e.own_events event he).1.symm.trans hs))
    have hinner : (entered e.inner).Nodup := by
      simp only [entered_cons, entered_append, List.nodup_append] at hn
      exact hn.2.1.2.1.1
    rw [e.events_eq]
    refine (h hinner x hin).extend (.enterExpr e :: e.opening) [e.closing, .exitExpr e] ?_
      (fun event he => hother event (List.mem_append_right _ he))
    intro event he
    rcases List.mem_cons.mp he with rfl | he
    · exact fun hs => hne (Option.some.inj hs)
    · exact hother event (List.mem_append_left _ he)

mutual

theorem Expr.located : ∀ e : Expr, Located e.events
  | .literal .. | .var .. => Expr.located_of_inner located_nil
  | .call _ _ _ args => Expr.located_of_inner (Expr.locatedList args)
  | .binary _ _ _ lhs rhs =>
    Expr.located_of_inner (lhs.located.append rhs.located lhs.grounded rhs.grounded)
  | .unary _ _ _ operand => Expr.located_of_inner operand.located
  | .cast _ _ operand => Expr.located_of_inner operand.located
  | .grouped _ inner => Expr.located_of_inner inner.located
  | .format _ _ args => Expr.located_of_inner (Expr.locatedList args)

theorem Expr.locatedList : ∀ es : List Expr, Located (Expr.eventsOfList es)
  | [] => located_nil
  | e :: rest => e.located.append (Expr.locatedList rest) e.grounded (Expr.groundedList rest)

end

theorem Expr.locatedOption : ∀ e : Option Expr, Located (Expr.eventsOfOption e)
  | none => located_nil
  | some e => e.located

theorem DataDef.located (d : DataDef) : Located d.events := by
  have h := (Expr.locatedOption d.init).around [.enterData d, .enterDecl d.decl] [.exitData d]
    (by simp) (by simp [Event.subject?, entered_cons, Event.entered?])
  simpa [DataDef.events] using h

mutual

theorem Stmt.located : ∀ s : Stmt, Located s.events
  | .data d => d.located
  | .assign a => a.value.located.around [.enterAssign a] [.exitAssign a] (by simp)
      (by simp [Event.subject?, entered_cons, Event.entered?])
  | .expr value => value.located
  | .branch conditional => conditional.located
  | .whileLoop keyword cond body =>
    ((Expr.locatedOption cond).append body.located (Expr.groundedOption cond) body.grounded).around
      [.enterWhile keyword cond body] [.exitWhile keyword cond body] (by simp)
      (by simp [Event.subject?])
  | .doLoop keyword body cond =>
    (body.located.append (Expr.locatedOption cond) body.grounded (Expr.groundedOption cond)).around
      [.enterDo keyword body cond] [.exitDo keyword body cond] (by simp) (by simp [Event.subject?])
  | .ret keyword value =>
    (Expr.locatedOption value).around [] [.exitReturn keyword value] (by simp)
      (by simp [Event.subject?])
  | .yield keyword value =>
    (Expr.locatedOption value).around [] [.exitYield keyword value] (by simp)
      (by simp [Event.subject?])
  | .brk keyword => located_nil.around [] [.enterBreak keyword] (by simp) (by simp [Event.subject?])
  | .cont keyword =>
    located_nil.around [] [.enterContinue keyword] (by simp) (by simp [Event.subject?])
  | .inline keyword text =>
    located_nil.around [] [.enterInline keyword text] (by simp) (by simp [Event.subject?])
  | .block body => body.located

theorem Block.located : ∀ b : Block, Located b.events
  | .mk id brace body => (Stmt.locatedList body).around [.enterBlock (.mk id brace body)]
      [.exitBlock (.mk id brace body)] (by simp)
      (by simp [Event.subject?, entered_cons, Event.entered?])

theorem Stmt.locatedList : ∀ body : List Stmt, Located (Stmt.eventsOfList body)
  | [] => located_nil
  | s :: rest => s.located.append (Stmt.locatedList rest) s.grounded (Stmt.groundedList rest)

theorem Conditional.located : ∀ c : Conditional, Located c.events
  | .mk keyword cond body otherwise =>
    ((cond.located.append body.located cond.grounded body.grounded).append otherwise.located
      (cond.grounded.append body.grounded) otherwise.grounded).around
      [.enterIf (.mk keyword cond body otherwise)] [.exitIf (.mk keyword cond body otherwise)]
      (by simp) (by simp [Event.subject?])

theorem Else.located : ∀ e : Else, Located e.events
  | .none => located_nil
  | .elseIf next => next.located
  | .block body => body.located

end

theorem Function.located (f : Function) : Located f.events := by
  rw [f.events_eq]
  exact f.body.located.around f.header [.exitFunction f] (fun event hm => (f.own_events event hm).2)
    fun event hm => (f.own_events event hm).1

theorem Item.located : ∀ item : Item, Located item.events
  | .imports i => located_nil.around [] [.enterImport i] (by simp) (by simp [Event.subject?])
  | .data d => d.located
  | .function f => f.located
  | .start s =>
    s.body.located.around [.enterStart s] [.exitStart s] (by simp) (by simp [Event.subject?])

theorem Item.locatedList : ∀ items : List Item, Located (items.flatMap Item.events)
  | [] => located_nil
  | item :: rest => by
    rw [List.flatMap_cons]
    exact item.located.append (Item.locatedList rest) item.grounded (Item.groundedList rest)

/-- **Every expression of a program stands in a row**, if no node occurs twice. -/
theorem Program.holds {p : Program} (hn : p.nodes.Nodup) {e : Expr}
    (he : .enterExpr e ∈ p.events) : Holds p.events e :=
  (Item.locatedList p.items).around [.enterProgram p] [.exitProgram p] (by simp)
    (by simp [Event.subject?, entered_cons, Event.entered?]) hn e he

end Semant
