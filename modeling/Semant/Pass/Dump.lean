import Semant.Pass.Basic

/-!
# Dumping scopes

A dump lists every scope that binds something, with its symbols in the order of their names. It is
a second walk over the tree: starting again at the root it enters the scope that was recorded on
each node, so a tree that was checked again in the meantime is found out.
-/

set_option autoImplicit false

namespace Semant

namespace Pass

/-- Steps that also write text. The text lies outside the part of the state that outlives an error,
so it is lost if the pass fails. -/
abbrev DumpM := StateT String PassM

def dumpLine (line : String) : DumpM Unit := do
  note (.dumped line)
  modify (· ++ line ++ "\n")

def dumpScope (ref : ScopeRef) : DumpM Unit := do
  let store := (← getThe Pass).store
  let scope := store.scope ref
  if scope.bindings.isEmpty then
    return
  dumpLine <| "context #" ++ toString scope.id ++
    match scope.parent with
    | some parent => " (parent #" ++ toString (store.scopeId parent) ++ ")"
    | none => ""
  (store.symbolsIn ref).forM fun symbol => dumpLine ("  " ++ (store.symbol symbol).describe)

def dumpNode (node : NodeId) (subject : Subject) : DumpM Unit := do
  match (← getThe Pass).store.notes.scopes.get node with
  | none => throw (.missingScope subject)
  | some ref =>
    enterScope ref
    dumpScope ref

def dumpVisit : Event → DumpM Unit
  | .enterProgram p => do
    let root ← resetScope
    let store := (← getThe Pass).store
    match store.notes.scopes.get p.id with
    | none => throw (.missingScope (.program p.file))
    | some ref =>
      -- a later analysis of the same tree has put its own root here
      if ref = root then dumpScope root
      else throw (.unexpectedScope (store.scopeId ref))
  | .enterFunction f => dumpNode f.id (.function f.name.name)
  | .enterBlock b => dumpNode b.id (.block b.position)
  | .exitProgram _ | .exitFunction _ | .exitBlock _ => do
    let _ ← leaveScope
  | _ => return

def dump (p : Program) : PassM String := do
  let (_, text) ← (p.walk dumpVisit).run ""
  return text

end Pass

end Semant
