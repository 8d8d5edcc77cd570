import Semant.Annotation

/-!
# The nodes that a walk visits

A node is entered once on a walk, and whatever else happens to it happens at events that are about
it. `Event.entered?` and `Event.subject?` say which nodes these are, and `Grounded` that a walk
over a part of a tree is only about nodes of that part: it is what makes the parts of a tree
independent of each other, as long as no node occurs in two of them.
-/

set_option autoImplicit false

namespace Semant

/-- Whether an expression is a literal. -/
def Expr.isLiteral : Expr → Bool
  | .literal .. => true
  | _ => false

namespace Event

/-- The node that a walk comes to with the event. -/
def entered? : Event → Option NodeId
  | .enterProgram p => some p.id
  | .enterDecl d | .enterParam _ d => some d.id
  | .enterFunction f => some f.id
  | .enterBlock b => some b.id
  | .enterAssign a => some a.id
  | .enterExpr e => some e.id
  | .enterVariable e _ | .enterCall e _ _ => some e.nameNode
  | _ => none

/-- The node that the event is about. A data definition has no number of its own, and its events are
about the declaration. The node inside a variable or a call is only ever reached through the expression,
so the events that come with it are about the expression. -/
def subject? : Event → Option NodeId
  | .enterProgram p | .exitProgram p => some p.id
  | .enterData d | .exitData d => some d.decl.id
  | .enterDecl d | .enterParam _ d => some d.id
  | .enterFunction f | .exitFunction f | .exitParams f => some f.id
  | .enterBlock b | .exitBlock b => some b.id
  | .enterAssign a | .exitAssign a => some a.id
  | .enterExpr e | .exitExpr e | .exitLiteral e _ | .enterVariable e _ | .exitVariable e _ => some e.id
  | .enterCall e _ _ | .exitCall e _ _ | .exitBinary e _ _ _ _ | .exitUnary e _ _ _ => some e.id
  | .exitCast e _ _ | .exitGrouped e _ | .exitFormat e _ _ => some e.id
  | _ => none

/-- The node that gets a scope of its own with the event. -/
def opens? : Event → Option NodeId
  | .enterProgram p => some p.id
  | .enterFunction f => some f.id
  | .enterBlock b => some b.id
  | _ => none

/-- The scopes that are open after the event, innermost first. A scope is named by its node. -/
def scopes (outer : List NodeId) : Event → List NodeId
  | .enterProgram p => p.id :: outer
  | .enterFunction f => f.id :: outer
  | .enterBlock b => b.id :: outer
  | .exitProgram _ | .exitFunction _ | .exitBlock _ => outer.tail
  | _ => outer

/-- The tokens in the place of a type that the check looks at. -/
def typeNames : Event → List Token
  | .enterDecl d | .enterParam _ d => [d.type]
  | .enterFunction f => [f.returns]
  | .exitCast _ target _ => [target]
  | _ => []

/-- The token of a literal that has no type, where the literal is read. -/
def untyped? (literals : Cells Ty) : Event → Option Token
  | .exitLiteral (.literal id _ given) token =>
    if (given.or (literals.get id)).isNone then some token else none
  | _ => none

end Event

/-- The nodes that some events enter, in order. -/
def entered (events : List Event) : List NodeId := events.filterMap Event.entered?

@[simp]
theorem entered_nil : entered [] = [] := rfl

@[simp]
theorem entered_append (first rest : List Event) :
    entered (first ++ rest) = entered first ++ entered rest := by
  simp [entered]

theorem entered_cons (event : Event) (rest : List Event) :
    entered (event :: rest) = event.entered?.toList ++ entered rest := by
  simp only [entered, List.filterMap_cons]
  cases event.entered? <;> rfl

/-- The nodes of a program, in the order in which a walk comes to them. -/
def Program.nodes (p : Program) : List NodeId := entered p.events

/-- The tokens in the place of a type. -/
def Program.typeNames (p : Program) : List Token := p.events.flatMap Event.typeNames

/-- The first literal of a program that has no type. -/
def Program.untyped? (p : Program) (literals : Cells Ty) : Option Token :=
  p.events.findSome? (Event.untyped? literals)

/-! ## The row of an expression -/

namespace Expr

/-- What the walk says of an expression before it comes to its parts. -/
def opening : Expr → List Event
  | .var id node name => [.enterVariable (.var id node name) name]
  | .call id node callee args => [.enterCall (.call id node callee args) callee args]
  | _ => []

/-- The events of the parts. -/
def inner : Expr → List Event
  | .literal .. | .var .. => []
  | .call _ _ _ args | .format _ _ args => eventsOfList args
  | .binary _ _ _ lhs rhs => lhs.events ++ rhs.events
  | .unary _ _ _ operand | .cast _ _ operand | .grouped _ operand => operand.events

/-- What the walk says of an expression after its parts. -/
def closing : Expr → Event
  | .literal id token given => .exitLiteral (.literal id token given) token
  | .var id node name => .exitVariable (.var id node name) name
  | .call id node callee args => .exitCall (.call id node callee args) callee args
  | .binary id op token lhs rhs => .exitBinary (.binary id op token lhs rhs) op token lhs rhs
  | .unary id op token operand => .exitUnary (.unary id op token operand) op token operand
  | .cast id target operand => .exitCast (.cast id target operand) target operand
  | .grouped id inner => .exitGrouped (.grouped id inner) inner
  | .format id token args => .exitFormat (.format id token args) token args

theorem events_eq (e : Expr) :
    e.events = .enterExpr e :: (e.opening ++ (e.inner ++ [e.closing, .exitExpr e])) := by
  cases e <;> simp [events, opening, inner, closing]

theorem enterExpr_mem (e : Expr) : .enterExpr e ∈ e.events := by
  rw [events_eq]
  exact List.mem_cons_self

theorem own_events (e : Expr) : ∀ event ∈ e.opening ++ [e.closing, .exitExpr e],
    event.subject? = some e.id ∧ ∀ x, event ≠ .enterExpr x := by
  cases e <;> simp [opening, closing, Event.subject?, id]

end Expr

/-! ## Events are about nodes that were entered -/

/-- Events are about nodes that they enter. -/
def Grounded (events : List Event) : Prop :=
  ∀ event ∈ events, ∀ n, event.subject? = some n → n ∈ entered events

theorem grounded_nil : Grounded [] := by
  intro event hm
  cases hm

theorem Grounded.append {first rest : List Event} (h : Grounded first) (h' : Grounded rest) :
    Grounded (first ++ rest) := by
  intro event hm n hn
  rw [entered_append]
  rcases List.mem_append.mp hm with hm | hm
  · exact List.mem_append_left _ (h event hm n hn)
  · exact List.mem_append_right _ (h' event hm n hn)

/-- Events around some others, which are about what was entered first. Every node has its parts between
two such lists, and where it has no number of its own there is nothing to be about. -/
theorem Grounded.around {parts : List Event} (h : Grounded parts) (first last : List Event)
    (hown : ∀ event ∈ first ++ last, ∀ n, event.subject? = some n → n ∈ entered first) :
    Grounded (first ++ (parts ++ last)) := by
  intro event hm n hn
  simp only [entered_append, List.mem_append] at hm ⊢
  rcases hm with hm | hm | hm
  · exact Or.inl (hown event (List.mem_append_left _ hm) n hn)
  · exact Or.inr (Or.inl (h event hm n hn))
  · exact Or.inl (hown event (List.mem_append_right _ hm) n hn)

theorem grounded_enter {event : Event} {node : NodeId} (he : event.entered? = some node)
    (hs : event.subject? = some node) : Grounded [event] :=
  grounded_nil.around [event] [] (by simp [entered_cons, he, hs])

theorem Expr.grounded_of_inner {e : Expr} (h : Grounded e.inner) : Grounded e.events := by
  rw [e.events_eq]
  refine h.around (.enterExpr e :: e.opening) [e.closing, .exitExpr e] ?_
  have hself : e.id ∈ entered (.enterExpr e :: e.opening) := by simp [entered_cons, Event.entered?]
  intro event hm n hn
  rcases List.mem_cons.mp hm with rfl | hm
  · cases hn
    exact hself
  · cases (e.own_events event hm).1.symm.trans hn
    exact hself

mutual

theorem Expr.grounded : ∀ e : Expr, Grounded e.events
  | .literal .. | .var .. => Expr.grounded_of_inner grounded_nil
  | .call _ _ _ args => Expr.grounded_of_inner (Expr.groundedList args)
  | .binary _ _ _ lhs rhs => Expr.grounded_of_inner (lhs.grounded.append rhs.grounded)
  | .unary _ _ _ operand => Expr.grounded_of_inner operand.grounded
  | .cast _ _ operand => Expr.grounded_of_inner operand.grounded
  | .grouped _ inner => Expr.grounded_of_inner inner.grounded
  | .format _ _ args => Expr.grounded_of_inner (Expr.groundedList args)

theorem Expr.groundedList : ∀ es : List Expr, Grounded (Expr.eventsOfList es)
  | [] => grounded_nil
  | e :: rest => e.grounded.append (Expr.groundedList rest)

end

theorem Expr.groundedOption : ∀ e : Option Expr, Grounded (Expr.eventsOfOption e)
  | none => grounded_nil
  | some e => e.grounded

theorem Expr.grounded_inner (e : Expr) : Grounded e.inner := by
  cases e with
  | literal | var => exact grounded_nil
  | call _ _ _ args | format _ _ args => exact groundedList args
  | binary _ _ _ lhs rhs => exact lhs.grounded.append rhs.grounded
  | unary _ _ _ operand | cast _ _ operand | grouped _ operand => exact operand.grounded

theorem DataDef.grounded (d : DataDef) : Grounded d.events := by
  have h := (Expr.groundedOption d.init).around [.enterData d, .enterDecl d.decl] [.exitData d]
    (by simp [Event.subject?, entered_cons, Event.entered?])
  simpa [DataDef.events] using h

mutual

theorem Stmt.grounded : ∀ s : Stmt, Grounded s.events
  | .data definition => definition.grounded
  | .assign a => a.value.grounded.around [.enterAssign a] [.exitAssign a]
      (by simp [Event.subject?, entered_cons, Event.entered?])
  | .expr value => value.grounded
  | .branch conditional => conditional.grounded
  | .whileLoop keyword cond body => ((Expr.groundedOption cond).append body.grounded).around
      [.enterWhile keyword cond body] [.exitWhile keyword cond body] (by simp [Event.subject?])
  | .doLoop keyword body cond => (body.grounded.append (Expr.groundedOption cond)).around
      [.enterDo keyword body cond] [.exitDo keyword body cond] (by simp [Event.subject?])
  | .ret keyword value =>
    (Expr.groundedOption value).around [] [.exitReturn keyword value] (by simp [Event.subject?])
  | .yield keyword value =>
    (Expr.groundedOption value).around [] [.exitYield keyword value] (by simp [Event.subject?])
  | .brk keyword => grounded_nil.around [] [.enterBreak keyword] (by simp [Event.subject?])
  | .cont keyword => grounded_nil.around [] [.enterContinue keyword] (by simp [Event.subject?])
  | .inline keyword text =>
    grounded_nil.around [] [.enterInline keyword text] (by simp [Event.subject?])
  | .block body => body.grounded

theorem Block.grounded : ∀ b : Block, Grounded b.events
  | .mk id brace body => (Stmt.groundedList body).around [.enterBlock (.mk id brace body)]
      [.exitBlock (.mk id brace body)] (by simp [Event.subject?, entered_cons, Event.entered?])

theorem Stmt.groundedList : ∀ body : List Stmt, Grounded (Stmt.eventsOfList body)
  | [] => grounded_nil
  | s :: rest => s.grounded.append (Stmt.groundedList rest)

theorem Conditional.grounded : ∀ c : Conditional, Grounded c.events
  | .mk keyword cond body otherwise =>
    ((cond.grounded.append body.grounded).append otherwise.grounded).around
      [.enterIf (.mk keyword cond body otherwise)] [.exitIf (.mk keyword cond body otherwise)]
      (by simp [Event.subject?])

theorem Else.grounded : ∀ e : Else, Grounded e.events
  | .none => grounded_nil
  | .elseIf next => next.grounded
  | .block body => body.grounded

end

namespace Function

theorem groundedParams (f : Function) (params : List Decl) :
    Grounded (params.map (Event.enterParam f)) := by
  intro event hm n hn
  obtain ⟨d, hd, rfl⟩ := List.mem_map.mp hm
  exact List.mem_filterMap.mpr ⟨_, hm, hn⟩

/-- What the walk says of a function before it comes to the body. -/
def header (f : Function) : List Event :=
  .enterFunction f :: (f.params.map (Event.enterParam f) ++ [.exitParams f])

theorem events_eq (f : Function) :
    f.events = f.header ++ (f.body.events ++ [.exitFunction f]) := by
  simp [events, header]

theorem own_events (f : Function) : ∀ event ∈ f.header ++ [.exitFunction f],
    (∀ n, event.subject? = some n → n ∈ entered f.header) ∧ ∀ e, event ≠ .enterExpr e := by
  have hself : f.id ∈ entered f.header := by simp [header, entered_cons, Event.entered?]
  intro event hm
  simp only [List.mem_append, header, List.mem_cons, List.mem_map, List.not_mem_nil, or_false] at hm
  rcases hm with (rfl | ⟨d, hd, rfl⟩ | rfl) | rfl
  · exact ⟨fun n hn => Option.some.inj hn ▸ hself, by simp⟩
  · exact ⟨fun n hn => List.mem_filterMap.mpr ⟨.enterParam f d, by simp [header, hd], hn⟩, by simp⟩
  · exact ⟨fun n hn => Option.some.inj hn ▸ hself, by simp⟩
  · exact ⟨fun n hn => Option.some.inj hn ▸ hself, by simp⟩

theorem grounded (f : Function) : Grounded f.events := by
  rw [f.events_eq]
  exact f.body.grounded.around f.header [.exitFunction f] fun event hm => (f.own_events event hm).1

end Function

theorem Item.grounded : ∀ item : Item, Grounded item.events
  | .imports i => grounded_nil.around [] [.enterImport i] (by simp [Event.subject?])
  | .data definition => definition.grounded
  | .function f => f.grounded
  | .start s => s.body.grounded.around [.enterStart s] [.exitStart s] (by simp [Event.subject?])

theorem Item.groundedList : ∀ items : List Item, Grounded (items.flatMap Item.events)
  | [] => grounded_nil
  | item :: rest => by
    rw [List.flatMap_cons]
    exact item.grounded.append (Item.groundedList rest)

end Semant
