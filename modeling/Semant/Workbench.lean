import Semant.Analysis
import Semant.Document.Lower

/-!
# The workbench

Trees can be built by hand, loaded from documents, analysed and taken apart in any order. A
workbench keeps what such steps share: a builder with its cursor, and a pass whose store holds all
scopes, symbols and annotations made so far. Trees and analyses are values and live outside.

Nodes that are loaded are numbered behind those that were built, so no two nodes of a workbench
share their annotations. A loaded document brings its own cursor and leaves that of the builder
alone.

The workbench has scopes, an open signature and diagnostics of its own, which serve the steps of a
pass that are taken by hand. An analysis uses none of them.
-/

set_option autoImplicit false

namespace Semant

structure Workbench where
  builder : Builder
  pass : Pass := {}
  deriving Inhabited

abbrev Work (ε : Type) := EStateM ε Workbench

namespace Workbench

variable {α ε : Type}

def new (file : String) : Workbench := { builder := { file } }

def build (construction : Build α) : Work BuildError α := fun w =>
  match construction.run w.builder with
  | .ok a builder => .ok a { w with builder }
  | .error e builder => .error e { w with builder }

def run (step : PassM α) : Work InternalError α := fun w =>
  match step.run w.pass with
  | .ok a pass => .ok a { w with pass }
  | .error e pass => .error e { w with pass }

/-- The builder keeps its file and its cursor. Only its numbering goes on behind the nodes that were
loaded, and a document that cannot be loaded changes nothing. -/
def load (text : String) : Work LoadError Program := fun w =>
  match Program.load text w.builder.next with
  | .ok (program, next) => .ok program { w with builder := { w.builder with next } }
  | .error e => .error e w

/-- Only the store takes part. The stack, the open signature and the diagnostics of the workbench
are neither read nor changed. -/
def analyze (p : Program) : Work InternalError Analysis := fun w =>
  match w.pass.store.analyze p with
  | (.ok a, store) => .ok a { w with pass := { w.pass with store } }
  | (.error e, store) => .error e { w with pass := { w.pass with store } }

def dump (a : Analysis) : Work InternalError String := do
  ofExcept ((← get).pass.store.dump a)

def fill (f : Annotations → Except ε Annotations) : Work ε Unit := do
  let w ← get
  let notes ← ofExcept (f w.pass.store.notes)
  set { w with pass := { w.pass with store := w.pass.store.annotate notes } }

end Workbench

end Semant
