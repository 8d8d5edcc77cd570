import Semant.Signature
import Semant.Tree.Event
import Std.Data.ExtTreeMap.Lemmas

/-!
# What is known about the nodes of a tree

The analysis records its findings under the numbers of the nodes. Each kind of finding has one
cell per node, and a cell is filled at most once: filling it again is refused and keeps what it
holds. Before a tree is analysed again its cells are emptied.

Types of literals are kept apart from the types of other expressions. They are not findings but
part of the input, so emptying the cells of a tree leaves them alone.
-/

set_option autoImplicit false

namespace Semant

abbrev ScopeRef := Nat

abbrev SymbolRef := Nat

/-- One cell for every node. Only the filled ones are kept, and in a map whose equality does not see
the order of insertion, so cells are equal as soon as all of them hold the same (`Cells.ext`). -/
structure Cells (α : Type) where
  filled : Std.ExtTreeMap NodeId α

namespace Cells

variable {α : Type}

def empty : Cells α := ⟨∅⟩

instance : Inhabited (Cells α) := ⟨empty⟩

def get (cells : Cells α) (node : NodeId) : Option α := cells.filled[node]?

/-- What the cell held is lost. `fill` and `Annotations.fillType` look before they write. -/
def put (cells : Cells α) (node : NodeId) (value : α) : Cells α :=
  ⟨cells.filled.insert node value⟩

def erase (cells : Cells α) (node : NodeId) : Cells α := ⟨cells.filled.erase node⟩

/-- A filled cell refuses and shows its content, so that the caller can say what stood in its way.
-/
def fill (cells : Cells α) (node : NodeId) (value : α) : Except α (Cells α) :=
  match cells.get node with
  | some existing => .error existing
  | none => .ok (cells.put node value)

@[simp]
theorem get_empty (node : NodeId) : (empty : Cells α).get node = none := by
  simp [get, empty]

theorem get_put (cells : Cells α) (node n : NodeId) (value : α) :
    (cells.put node value).get n = if node = n then some value else cells.get n := by
  simp [get, put, Std.ExtTreeMap.getElem?_insert]

theorem get_erase (cells : Cells α) (node n : NodeId) :
    (cells.erase node).get n = if node = n then none else cells.get n := by
  simp [get, erase, Std.ExtTreeMap.getElem?_erase]

@[ext]
theorem ext {a b : Cells α} (h : ∀ n, a.get n = b.get n) : a = b := by
  cases a
  cases b
  congr
  exact Std.ExtTreeMap.ext_getElem? h

end Cells

structure Annotations where
  /-- Types that were given to literals after they had been built. -/
  literals : Cells Ty := .empty
  /-- Types of all other expressions. -/
  types : Cells Ty := .empty
  /-- Scopes of programs, functions and blocks. -/
  scopes : Cells ScopeRef := .empty
  /-- Symbols of declarations, functions, assignments, variables and calls. -/
  symbols : Cells SymbolRef := .empty
  /-- Signatures of functions. -/
  signatures : Cells Signature := .empty
  deriving Inhabited

namespace Annotations

/-- A literal answers with the type it was built with, and only without one with the type given to
it later. What a caller writes over a typed literal is therefore never seen. -/
def typeOf (notes : Annotations) : Expr → Option Ty
  | .literal id _ given => given.or (notes.literals.get id)
  | e => notes.types.get e.id

/-- Once, like the other findings. A literal takes its type into the cells that clearing leaves
alone. -/
def fillType (notes : Annotations) (e : Expr) (type : Ty) : Except Ty Annotations :=
  match notes.typeOf e with
  | some existing => .error existing
  | none =>
    match e with
    | .literal id .. => .ok { notes with literals := notes.literals.put id type }
    | e => .ok { notes with types := notes.types.put e.id type }

def fillScope (notes : Annotations) (node : NodeId) (scope : ScopeRef) :
    Except ScopeRef Annotations :=
  (notes.scopes.fill node scope).map fun scopes => { notes with scopes }

def fillSymbol (notes : Annotations) (node : NodeId) (symbol : SymbolRef) :
    Except SymbolRef Annotations :=
  (notes.symbols.fill node symbol).map fun symbols => { notes with symbols }

def fillSignature (notes : Annotations) (node : NodeId) (signature : Signature) :
    Except Signature Annotations :=
  (notes.signatures.fill node signature).map fun signatures => { notes with signatures }

/-- Empties the cells of the node that a walk enters. The name of a variable or a call is a node of
its own below the expression, hence the two events for one expression. -/
def forget (notes : Annotations) : Event → Annotations
  | .enterProgram p => { notes with scopes := notes.scopes.erase p.id }
  | .enterDecl d | .enterParam _ d => { notes with symbols := notes.symbols.erase d.id }
  | .enterFunction f =>
    { notes with
      scopes := notes.scopes.erase f.id
      signatures := notes.signatures.erase f.id
      symbols := notes.symbols.erase f.id }
  | .enterBlock b => { notes with scopes := notes.scopes.erase b.id }
  | .enterAssign a => { notes with symbols := notes.symbols.erase a.id }
  -- the type of a literal is part of the input
  | .enterExpr (.literal ..) => notes
  | .enterExpr e => { notes with types := notes.types.erase e.id }
  | .enterVariable e _ | .enterCall e _ _ =>
    { notes with symbols := notes.symbols.erase e.nameNode }
  | _ => notes

/-- The same walk as that of the check, so no node is checked whose cells were not emptied before.
-/
def clear (notes : Annotations) (p : Program) : Annotations :=
  let walk : StateM Annotations Unit := p.walk fun event => modify (·.forget event)
  (walk.run notes).2

end Annotations

/-- Whether a walk enters a node of which `Annotations.clear` takes account. The names of variables
and calls are not counted, since they are entered right after their expressions. -/
def Event.isClearing : Event → Bool
  | .enterProgram _ | .enterDecl _ | .enterParam .. | .enterFunction _ | .enterBlock _ => true
  | .enterAssign _ | .enterExpr _ => true
  | _ => false

def Program.clearedNodes (p : Program) : Nat :=
  let walk : StateM Nat Unit := p.walk fun event => modify fun count =>
    if event.isClearing then count + 1 else count
  (walk.run 0).2

end Semant
