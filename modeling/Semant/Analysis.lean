import Semant.Pass.Check
import Semant.Pass.Dump

/-!
# Analyses

An analysis checks a program in a store where other analyses and other trees may live. The cells of
the program's own nodes are emptied first, since the tree may have been analysed before or annotated
by hand. The scopes and symbols of the check come behind those that are there.

An analysis that meets an internal error gives no result, but what it had found until then is kept
all the same.
-/

set_option autoImplicit false

namespace Semant

structure Analysis where
  program : Program
  /-- The program's scope. Whoever has an analysis has it, so a check that opened none gives no
  analysis. -/
  root : ScopeRef
  stack : ScopeStack
  diagnostics : Diagnostics
  errorCount : Nat
  warningCount : Nat
  deriving Inhabited

/-- Whether the program may be handed on to what comes after the analysis. Warnings do not stand in
its way. -/
def Analysis.isReady (a : Analysis) : Bool := a.errorCount = 0

/-- The root scope is asked for after the walk, as part of the result. Opening it is the first thing
a check does, so the error that `rootScope` may raise is one that no program meets. -/
def Pass.analyze (p : Program) : PassM Analysis := do
  check p
  let root ← rootScope
  let { stack, diagnostics, errorCount, warningCount, .. } ← get
  note (.analysed p.file errorCount warningCount)
  return { program := p, root, stack, diagnostics, errorCount, warningCount }

/-- The state in which the check of a program starts: no scope is open, and the cells of the program
are empty, except that literals keep their types. -/
def Store.checking (store : Store) (p : Program) : Pass :=
  { store := store.annotate (store.notes.clear p) }

/-- The store comes back in both cases. An internal error gives no analysis, but the scopes, symbols
and types found until then are there and the next analysis builds on them. -/
def Store.analyze (store : Store) (p : Program) : Except InternalError Analysis × Store :=
  match (Pass.analyze p).run (store.checking p) with
  | .ok a pass => (.ok a, pass.store)
  | .error e pass => (.error e, pass.store)

def Store.dump (store : Store) (a : Analysis) : Except InternalError String :=
  match (Pass.dump a.program).run { store, stack := a.stack } with
  | .ok text _ => .ok text
  | .error e _ => .error e

end Semant
