import Semant.Proofs.Declarations
import Semant.Proofs.Nodes
import Semant.Proofs.Walk

/-!
# Emptied cells

Before a program is checked the cells of its nodes are emptied. A tree may come with anything in its
cells, and it may use a node in several places; whatever it is like, a cell that the check will read
or write is empty afterwards, with the one exception that literals keep their types.
-/

set_option autoImplicit false

namespace Semant

/-- Emptying the cells of a program goes through its events. -/
theorem Annotations.clear_eq_foldl (notes : Annotations) (p : Program) :
    notes.clear p = p.events.foldl Annotations.forget notes := by
  have hrun : ∀ (events : List Event) (notes : Annotations),
      ((forM events fun event => modify (·.forget event) : StateM Annotations PUnit).run notes).2
        = events.foldl Annotations.forget notes := by
    intro events
    induction events with
    | nil => intro notes; rfl
    | cons event rest ih =>
      intro notes
      rw [List.forM_cons]
      exact ih (notes.forget event)
  rw [Annotations.clear, Program.walk_eq_forM]
  exact hrun p.events notes

/-- Literals keep their types when the cells of a program are emptied. -/
theorem Annotations.literals_clear (notes : Annotations) (p : Program) :
    (notes.clear p).literals = notes.literals := by
  rw [clear_eq_foldl]
  generalize p.events = events
  induction events generalizing notes with
  | nil => rfl
  | cons event rest ih =>
    have hone : (notes.forget event).literals = notes.literals := by
      cases event with
      | enterExpr e => cases e <;> rfl
      | _ => rfl
    exact (ih (notes.forget event)).trans hone

/-- What one event establishes and no event undoes holds once a program was cleared. -/
theorem Annotations.clear_of_mem {P : Annotations → Prop} {p : Program} {event : Event}
    (hm : event ∈ p.events) (hevent : ∀ notes : Annotations, P (notes.forget event))
    (hkeep : ∀ (notes : Annotations) event, P notes → P (notes.forget event))
    (notes : Annotations) : P (notes.clear p) := by
  have hrun : ∀ (events : List Event) (notes : Annotations), P notes →
      P (events.foldl Annotations.forget notes) := by
    intro events
    induction events with
    | nil => exact fun _ h => h
    | cons next rest ih => exact fun notes h => ih _ (hkeep notes next h)
  obtain ⟨before, rest, hsplit⟩ := List.append_of_mem hm
  rw [clear_eq_foldl, hsplit, List.foldl_append, List.foldl_cons]
  exact hrun rest _ (hevent _)

theorem Annotations.symbols_forget (notes : Annotations) (event : Event) (n : NodeId) :
    (notes.forget event).symbols.get n
      = if event.mentions? = some n then none else notes.symbols.get n := by
  cases event with
  | enterExpr e => cases e <;> simp [forget, Event.mentions?, Event.declares?, Event.refers?]
  | _ =>
    simp [forget, Event.mentions?, Event.declares?, Event.refers?, Definition.id, Cells.get_erase]

/-- Declarations and references of a cleared program have no symbols. -/
theorem Annotations.symbols_clear {p : Program} {event : Event} (hm : event ∈ p.events)
    {n : NodeId} (hn : event.mentions? = some n) (notes : Annotations) :
    (notes.clear p).symbols.get n = none := by
  refine clear_of_mem (P := fun notes => notes.symbols.get n = none) hm ?_ ?_ notes
  · intro notes
    rw [symbols_forget, if_pos hn]
  · intro notes event h
    rw [symbols_forget, h, ite_self]

theorem Annotations.scopes_forget (notes : Annotations) (event : Event) (n : NodeId) :
    (notes.forget event).scopes.get n
      = if event.opens? = some n then none else notes.scopes.get n := by
  cases event with
  | enterExpr e => cases e <;> simp [forget, Event.opens?]
  | _ => simp [forget, Event.opens?, Cells.get_erase]

theorem Annotations.scopes_clear {p : Program} {event : Event} (hm : event ∈ p.events)
    {n : NodeId} (hn : event.opens? = some n) (notes : Annotations) :
    (notes.clear p).scopes.get n = none := by
  refine clear_of_mem (P := fun notes => notes.scopes.get n = none) hm ?_ ?_ notes
  · intro notes
    rw [scopes_forget, if_pos hn]
  · intro notes event h
    rw [scopes_forget, h, ite_self]

theorem Annotations.signatures_clear {p : Program} {f : Function}
    (hm : .enterFunction f ∈ p.events) (notes : Annotations) :
    (notes.clear p).signatures.get f.id = none := by
  refine clear_of_mem (P := fun notes => notes.signatures.get f.id = none) hm ?_ ?_ notes
  · intro notes
    simp [forget, Cells.get_erase]
  · intro notes event h
    cases event with
    | enterExpr e => cases e <;> exact h
    | enterFunction g => simp [forget, Cells.get_erase, h]
    | _ => exact h

/-- Expressions of a cleared program have no types, except literals. -/
theorem Annotations.types_clear {p : Program} {e : Expr} (hm : .enterExpr e ∈ p.events)
    (he : e.isLiteral = false) (notes : Annotations) : (notes.clear p).types.get e.id = none := by
  refine clear_of_mem (P := fun notes => notes.types.get e.id = none) hm ?_ ?_ notes
  · intro notes
    cases e with
    | literal id token given => cases he
    | _ => simp [forget, Cells.get_erase]
  · intro notes event h
    cases event with
    | enterExpr x => cases x <;> simp [forget, Cells.get_erase, h]
    | _ => exact h

end Semant
