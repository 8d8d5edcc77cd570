import Semant.Proofs.Changes
import Semant.Proofs.ScopeTree

/-!
# Scopes are left in the order in which they are opened

A walk that comes to a node with a scope leaves it again, and in between it leaves no other scope that
was open before. So whoever follows a walk with a stack never finds the stack empty where a scope is
left, and it finds it empty in one place only, where the program is entered. `Nested` says so of a
list of events; the induction over the tree is on what may follow the events of a part.
-/

set_option autoImplicit false

namespace Semant

namespace Event

/-- The event may come while the scopes in `outer` are open: the program is entered from nowhere, and
everything else about scopes happens inside one. -/
def Fits (outer : List NodeId) : Event → Prop
  | .enterProgram _ => outer = []
  | .enterFunction _ | .enterBlock _ => outer ≠ []
  | .exitProgram _ | .exitFunction _ | .exitBlock _ => outer ≠ []
  | _ => True

/-- No scope is opened or left at the event. -/
structure Still (event : Event) : Prop where
  opens : event.opens? = none
  closes : event.closes = false

theorem Quiet.still {event : Event} (h : event.Quiet) : event.Still := by
  refine ⟨h.opens, ?_⟩
  have hscopes := h.scopes [0]
  cases event with
  | exitProgram p | exitFunction f | exitBlock b => cases hscopes
  | _ => rfl

theorem Still.scopes {event : Event} (h : event.Still) (outer : List NodeId) :
    event.scopes outer = outer := by
  cases event with
  | enterProgram p | enterFunction f | enterBlock b => cases h.opens
  | exitProgram p | exitFunction f | exitBlock b => cases h.closes
  | _ => rfl

theorem Still.fits {event : Event} (h : event.Still) (outer : List NodeId) : event.Fits outer := by
  cases event with
  | enterProgram p | enterFunction f | enterBlock b => cases h.opens
  | exitProgram p | exitFunction f | exitBlock b => cases h.closes
  | _ => trivial

end Event

/-- The events open and leave scopes in order. The scopes in `outer` are open before. -/
def Nested (outer : List NodeId) : List Event → Prop
  | [] => True
  | event :: rest => event.Fits outer ∧ Nested (event.scopes outer) rest

/-- The events of a part of a tree have no influence on whether what follows is in order. -/
def Inner (events : List Event) : Prop :=
  ∀ node outer rest, Nested (node :: outer) rest → Nested (node :: outer) (events ++ rest)

namespace Inner

theorem nil : Inner [] := fun _ _ _ h => h

theorem append {first rest : List Event} (h : Inner first) (h' : Inner rest) :
    Inner (first ++ rest) := by
  intro node outer after hafter
  rw [List.append_assoc]
  exact h node outer _ (h' node outer after hafter)

theorem still {events : List Event} (h : ∀ event ∈ events, event.Still) : Inner events := by
  intro node outer rest hrest
  induction events with
  | nil => exact hrest
  | cons event more ih =>
    have hevent := h event List.mem_cons_self
    refine ⟨hevent.fits _, ?_⟩
    rw [hevent.scopes]
    exact ih fun other hm => h other (List.mem_cons_of_mem event hm)

theorem event {event : Event} (h : event.Still) : Inner [event] := by
  apply still
  intro other hm
  cases List.mem_singleton.mp hm
  exact h

/-- Events at which nothing happens, before a part and after it. -/
theorem around {first last : Event} {parts : List Event} (h : Inner parts) (hfirst : first.Still)
    (hlast : last.Still) : Inner (first :: (parts ++ [last])) :=
  (event hfirst).append (h.append (event hlast))

/-- A part with a scope of its own. -/
theorem scope {enter exit : Event} {id : NodeId} {inside : List Event} (h : Inner inside)
    (henter : ∀ outer, enter.scopes outer = id :: outer)
    (hexit : ∀ outer, exit.scopes outer = outer.tail)
    (hfits : ∀ node outer, enter.Fits (node :: outer))
    (hfits' : ∀ node outer, exit.Fits (node :: outer)) : Inner (enter :: (inside ++ [exit])) := by
  intro node outer rest hrest
  rw [List.cons_append, List.append_assoc]
  refine ⟨hfits node outer, ?_⟩
  -- Inside, the node itself is the innermost one, and it is still that when the scope is left.
  rw [henter]
  apply h
  refine ⟨hfits' id (node :: outer), ?_⟩
  rw [hexit]
  exact hrest

end Inner

theorem Expr.innerOption (e : Option Expr) : Inner (Expr.eventsOfOption e) := by
  cases e with
  | none => exact .nil
  | some e => exact .still fun event hm => (e.quiet event hm).still

theorem Expr.inner_events (e : Expr) : Inner e.events :=
  .still fun event hm => (e.quiet event hm).still

theorem DataDef.inner (d : DataDef) : Inner d.events := by
  have hdecl : Inner [.enterDecl d.decl] := .event ⟨rfl, rfl⟩
  have hall : Inner (.enterData d :: (_ ++ [.exitData d])) :=
    (hdecl.append (Expr.innerOption d.init)).around ⟨rfl, rfl⟩ ⟨rfl, rfl⟩
  exact hall

mutual

theorem Stmt.inner : ∀ s : Stmt, Inner s.events
  | .data definition => definition.inner
  | .assign a => a.value.inner_events.around ⟨rfl, rfl⟩ ⟨rfl, rfl⟩
  | .expr value => value.inner_events
  | .branch conditional => conditional.inner
  | .whileLoop _ cond body =>
    ((Expr.innerOption cond).append body.inner).around ⟨rfl, rfl⟩ ⟨rfl, rfl⟩
  | .doLoop _ body cond =>
    (body.inner.append (Expr.innerOption cond)).around ⟨rfl, rfl⟩ ⟨rfl, rfl⟩
  | .ret _ value => (Expr.innerOption value).append (.event ⟨rfl, rfl⟩)
  | .yield _ value => (Expr.innerOption value).append (.event ⟨rfl, rfl⟩)
  | .brk _ | .cont _ | .inline _ _ => .event ⟨rfl, rfl⟩
  | .block body => body.inner

theorem Block.inner : ∀ b : Block, Inner b.events
  | .mk _ _ body =>
    (Stmt.innerList body).scope (fun _ => rfl) (fun _ => rfl) (fun _ _ => List.cons_ne_nil _ _)
      fun _ _ => List.cons_ne_nil _ _

theorem Stmt.innerList : ∀ body : List Stmt, Inner (Stmt.eventsOfList body)
  | [] => .nil
  | s :: rest => s.inner.append (Stmt.innerList rest)

theorem Conditional.inner : ∀ c : Conditional, Inner c.events
  | .mk _ cond body otherwise =>
    ((cond.inner_events.append body.inner).append otherwise.inner).around ⟨rfl, rfl⟩ ⟨rfl, rfl⟩

theorem Else.inner : ∀ e : Else, Inner e.events
  | .none => .nil
  | .elseIf next => next.inner
  | .block body => body.inner

end

theorem Function.inner (f : Function) : Inner f.events := by
  have hparams : Inner (f.params.map (Event.enterParam f)) := by
    apply Inner.still
    intro event hm
    obtain ⟨d, -, rfl⟩ := List.mem_map.mp hm
    exact ⟨rfl, rfl⟩
  have hsigned : Inner [.exitParams f] := .event ⟨rfl, rfl⟩
  have hinside := hparams.append (hsigned.append f.body.inner)
  have hall : Inner (.enterFunction f :: (_ ++ [.exitFunction f])) :=
    hinside.scope (fun _ => rfl) (fun _ => rfl) (fun _ _ => List.cons_ne_nil _ _)
      fun _ _ => List.cons_ne_nil _ _
  rw [List.append_assoc] at hall
  exact hall

theorem Item.inner (item : Item) : Inner item.events := by
  cases item with
  | imports i => exact .event ⟨rfl, rfl⟩
  | data definition => exact definition.inner
  | function f => exact f.inner
  | start s =>
    have hall : Inner (.enterStart s :: (_ ++ [.exitStart s])) :=
      s.body.inner.around ⟨rfl, rfl⟩ ⟨rfl, rfl⟩
    exact hall

theorem Item.innerList : ∀ items : List Item, Inner (items.flatMap Item.events)
  | [] => .nil
  | item :: rest => by
    rw [List.flatMap_cons]
    exact item.inner.append (Item.innerList rest)

/-- **A walk over a program opens and leaves scopes in order.** -/
theorem Program.nested (p : Program) : Nested [] p.events :=
  ⟨rfl, Item.innerList p.items p.id [] _ ⟨List.cons_ne_nil _ _, trivial⟩⟩

end Semant
