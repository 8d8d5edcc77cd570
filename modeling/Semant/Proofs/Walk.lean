import Semant.Annotation

/-!
# A walk is a run over a list of events

`Program.walk` recurses through the tree and `Program.events` writes the same order down as a list.
This file says that they agree, for every visitor in every lawful monad: a walk is `forM` over the
events. What a pass does is therefore settled one event at a time, and only facts about the *order*
of events need an induction over the tree.

The two halves of the tree, expressions and statements, are mutually recursive with their lists, so
each statement is proved for the tree and for its lists at once.
-/

set_option autoImplicit false

namespace Semant

section Walk

variable {m : Type → Type} [Monad m] (visit : Event → m Unit)

mutual

theorem Expr.walk_eq_forM [LawfulMonad m] : ∀ (e : Expr), e.walk visit = forM e.events visit
  | .literal id token given => by
    simp [Expr.walk, Expr.events]
  | .var id node name => by
    simp [Expr.walk, Expr.events]
  | .call id node callee args => by
    simp [Expr.walk, Expr.events, Expr.walkList_eq_forM args]
  | .binary id op token lhs rhs => by
    simp [Expr.walk, Expr.events, Expr.walk_eq_forM lhs, Expr.walk_eq_forM rhs]
  | .unary id op token operand => by
    simp [Expr.walk, Expr.events, Expr.walk_eq_forM operand]
  | .cast id target operand => by
    simp [Expr.walk, Expr.events, Expr.walk_eq_forM operand]
  | .grouped id inner => by
    simp [Expr.walk, Expr.events, Expr.walk_eq_forM inner]
  | .format id token args => by
    simp [Expr.walk, Expr.events, Expr.walkList_eq_forM args]

theorem Expr.walkList_eq_forM [LawfulMonad m] : ∀ (es : List Expr),
    Expr.walkList visit es = forM (Expr.eventsOfList es) visit
  | [] => by simp [Expr.walkList, Expr.eventsOfList]
  | e :: rest => by
    simp [Expr.walkList, Expr.eventsOfList, Expr.walk_eq_forM e, Expr.walkList_eq_forM rest]

end

theorem Expr.walkOption_eq_forM [LawfulMonad m] (e : Option Expr) :
    Expr.walkOption visit e = forM (Expr.eventsOfOption e) visit := by
  cases e with
  | none => simp [Expr.walkOption, Expr.eventsOfOption]
  | some e => simp [Expr.walkOption, Expr.eventsOfOption, Expr.walk_eq_forM]

theorem DataDef.walk_eq_forM [LawfulMonad m] (d : DataDef) : d.walk visit = forM d.events visit := by
  simp [DataDef.walk, DataDef.events, Expr.walkOption_eq_forM]

mutual

theorem Stmt.walk_eq_forM [LawfulMonad m] : ∀ (s : Stmt), s.walk visit = forM s.events visit
  | .data definition => by simp [Stmt.walk, Stmt.events, DataDef.walk_eq_forM]
  | .assign a => by simp [Stmt.walk, Stmt.events, Expr.walk_eq_forM]
  | .expr value => by simp [Stmt.walk, Stmt.events, Expr.walk_eq_forM]
  | .branch conditional => by simp [Stmt.walk, Stmt.events, Conditional.walk_eq_forM conditional]
  | .whileLoop keyword cond body => by
    simp [Stmt.walk, Stmt.events, Expr.walkOption_eq_forM, Block.walk_eq_forM body]
  | .doLoop keyword body cond => by
    simp [Stmt.walk, Stmt.events, Expr.walkOption_eq_forM, Block.walk_eq_forM body]
  | .ret keyword value => by simp [Stmt.walk, Stmt.events, Expr.walkOption_eq_forM]
  | .yield keyword value => by simp [Stmt.walk, Stmt.events, Expr.walkOption_eq_forM]
  | .brk keyword => by simp [Stmt.walk, Stmt.events]
  | .cont keyword => by simp [Stmt.walk, Stmt.events]
  | .inline keyword text => by simp [Stmt.walk, Stmt.events]
  | .block body => by simp [Stmt.walk, Stmt.events, Block.walk_eq_forM body]

theorem Block.walk_eq_forM [LawfulMonad m] : ∀ (b : Block), b.walk visit = forM b.events visit
  | .mk id brace body => by simp [Block.walk, Block.events, Stmt.walkList_eq_forM body]

theorem Stmt.walkList_eq_forM [LawfulMonad m] : ∀ (body : List Stmt),
    Stmt.walkList visit body = forM (Stmt.eventsOfList body) visit
  | [] => by simp [Stmt.walkList, Stmt.eventsOfList]
  | s :: rest => by
    simp [Stmt.walkList, Stmt.eventsOfList, Stmt.walk_eq_forM s, Stmt.walkList_eq_forM rest]

theorem Conditional.walk_eq_forM [LawfulMonad m] :
    ∀ (c : Conditional), c.walk visit = forM c.events visit
  | .mk keyword cond body otherwise => by
    simp [Conditional.walk, Conditional.events, Expr.walk_eq_forM, Block.walk_eq_forM body,
      Else.walk_eq_forM otherwise]

theorem Else.walk_eq_forM [LawfulMonad m] :
    ∀ (otherwise : Else), otherwise.walk visit = forM otherwise.events visit
  | .none => by simp [Else.walk, Else.events]
  | .elseIf next => by simp [Else.walk, Else.events, Conditional.walk_eq_forM next]
  | .block body => by simp [Else.walk, Else.events, Block.walk_eq_forM body]

end

theorem Function.walkParams_eq_forM [LawfulMonad m] (f : Function) : ∀ (params : List Decl),
    f.walkParams visit params = forM (params.map (Event.enterParam f)) visit
  | [] => by simp [Function.walkParams]
  | d :: rest => by simp [Function.walkParams, Function.walkParams_eq_forM f rest]

theorem Function.walk_eq_forM [LawfulMonad m] (f : Function) : f.walk visit = forM f.events visit := by
  simp [Function.walk, Function.events, Function.walkParams_eq_forM, Block.walk_eq_forM]

theorem Item.walk_eq_forM [LawfulMonad m] (item : Item) :
    item.walk visit = forM item.events visit := by
  cases item with
  | imports i => simp [Item.walk, Item.events]
  | data definition => simp [Item.walk, Item.events, DataDef.walk_eq_forM]
  | function f => simp [Item.walk, Item.events, Function.walk_eq_forM]
  | start s => simp [Item.walk, Item.events, Block.walk_eq_forM]

theorem Item.walkList_eq_forM [LawfulMonad m] : ∀ (items : List Item),
    Item.walkList visit items = forM (items.flatMap Item.events) visit
  | [] => by simp [Item.walkList]
  | item :: rest => by
    simp [Item.walkList, Item.walk_eq_forM, Item.walkList_eq_forM rest]

/-- **A walk over a program is a run over its events.** -/
theorem Program.walk_eq_forM [LawfulMonad m] (p : Program) : p.walk visit = forM p.events visit := by
  simp [Program.walk, Program.events, Item.walkList_eq_forM]

end Walk

end Semant
