import Semant.InternalError
import Semant.Log
import Semant.Store

/-!
# Passes

A pass works on a store of scopes and symbols. On the way it keeps a stack of scopes, at most one
signature that is still growing, the function it is in, the diagnostics it reported and a log.
A pass that meets an internal error stops, and what it did until then stays done.

This file has the steps that need nothing but the state: reporting, recording findings about nodes
and moving between scopes.
-/

set_option autoImplicit false

namespace Semant

structure Pass where
  store : Store := {}
  stack : ScopeStack := {}
  /-- The signature whose parameters are being declared. -/
  header : Option Signature := none
  /-- The function whose body is being checked. -/
  function : Option Function := none
  diagnostics : Diagnostics := []
  /-- Errors and warnings are counted as they are reported, not by going through the diagnostics
  again. That both agree is a matter of proof (`Pass.Tallied`). -/
  errorCount : Nat := 0
  warningCount : Nat := 0
  log : Array LogEntry := #[]
  deriving Inhabited

/-- Steps of a pass. An error does not undo what was done before it, hence the state is kept beside
the error. -/
abbrev PassM := EStateM InternalError Pass

namespace Pass

def note (entry : LogEntry) : PassM Unit :=
  modify fun p => { p with log := p.log.push entry }

def counted (p : Pass) : Severity → Pass
  | .error => { p with errorCount := p.errorCount + 1 }
  | .warning => { p with warningCount := p.warningCount + 1 }

/-- Counts before it logs, and logs before it collects. None of the three can fail, so they never
disagree for longer than this step. -/
def report (severity : Severity) (position : Position) (finding : Finding) : PassM Unit := do
  let diagnostic := { severity, position, finding : Diagnostic }
  modify fun p => p.counted severity
  note (.reported diagnostic)
  modify fun p => { p with diagnostics := p.diagnostics ++ [diagnostic] }

def reportError (position : Position) (finding : Finding) : PassM Unit :=
  report .error position finding

def reportWarning (position : Position) (finding : Finding) : PassM Unit :=
  report .warning position finding

/-! ## Findings about nodes -/

/-- Replaces the annotations by the outcome of filling a cell. What stood in the cell is not part of
the error, only whose cell it is. -/
def record {α : Type} (subject : Subject) (fill : Annotations → Except α Annotations) :
    PassM Unit := do
  let p ← get
  match fill p.store.notes with
  | .ok notes => set { p with store := p.store.annotate notes }
  | .error _ => throw (.reannotated subject)

def recordScope (node : NodeId) (scope : ScopeRef) (subject : Subject) : PassM Unit :=
  record subject fun notes => notes.fillScope node scope

def recordSymbol (node : NodeId) (symbol : SymbolRef) (subject : Subject) : PassM Unit :=
  record subject fun notes => notes.fillSymbol node symbol

def recordSignature (node : NodeId) (signature : Signature) (subject : Subject) : PassM Unit :=
  record subject fun notes => notes.fillSignature node signature

/-- The type is logged before it is recorded, so a refused one is in the log as well. -/
def recordType (e : Expr) (type : Ty) : PassM Unit := do
  let position := e.position
  note (.typed position type)
  record (.expression position) fun notes => notes.fillType e type

def typeOf (e : Expr) : PassM (Option Ty) := do
  return (← get).store.notes.typeOf e

def symbolOf (node : NodeId) : PassM (Option SymbolRef) := do
  return (← get).store.notes.symbols.get node

/-! ## Scopes -/

/-- Opens a new scope inside the active one and makes it active. The first scope of a stack becomes
its root and stays it, whatever is opened or left later. -/
def createScope : PassM ScopeRef := do
  let { store, stack, .. } ← get
  let ref := store.scopes.size
  let scope : Scope := { id := stack.next, parent := stack.active }
  let parentId := stack.active.map store.scopeId
  modify fun p =>
    { p with
      store := p.store.addScope scope
      stack := { root := stack.root.or (some ref), active := some ref, next := stack.next + 1 } }
  note (.scopeCreated scope.id parentId)
  return ref

/-- Enters a scope again. It has to lie directly inside the active one, so the first scope of a
stack cannot be entered in this way but only by `resetScope`. -/
def enterScope (ref : ScopeRef) : PassM Unit := do
  let p ← get
  let scope := p.store.scope ref
  if p.stack.active.isSome && scope.parent = p.stack.active then
    note (.scopeEntered scope.id)
    modify fun p => { p with stack := { p.stack with active := some ref } }
  else
    throw (.unexpectedScope scope.id)

def leaveScope : PassM (Option ScopeRef) := do
  let p ← get
  match p.stack.active with
  | none => throw .scopeUnderflow
  | some ref =>
    let scope := p.store.scope ref
    note (.scopeLeft scope.id)
    modify fun p => { p with stack := { p.stack with active := scope.parent } }
    return scope.parent

def activeScope : PassM ScopeRef := do
  match (← get).stack.active with
  | none => throw .noActiveScope
  | some ref => return ref

def rootScope : PassM ScopeRef := do
  match (← get).stack.root with
  | none => throw .noRootScope
  | some ref => return ref

/-- Makes the root active, wherever the pass stands. The scopes in between are not left one by one,
and nothing is logged about them. -/
def resetScope : PassM ScopeRef := do
  let p ← get
  match p.stack.root with
  | none => throw .noRootScope
  | some ref =>
    note (.scopeReset (p.store.scopeId ref))
    modify fun p => { p with stack := { p.stack with active := some ref } }
    return ref

end Pass

end Semant
