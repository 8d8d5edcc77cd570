import Semant.Pass.Check

/-!
# What the steps of a pass do

One lemma for each way a step of the check can go, giving the state it ends in. The log is written
by nearly every step and read by none, so the lemmas say that there is *some* log afterwards and
leave it at that; everything else is spelled out.

A step that can fail has its condition as a hypothesis. Where the hypotheses come from is not the
business of this file: no tree is in sight here.
-/

set_option autoImplicit false

namespace Semant

/-- The state with a different log. -/
def Pass.logged (s : Pass) (log : Array LogEntry) : Pass := { s with log }

/-- The state with more diagnostics, each of them counted. -/
def Pass.reporting (s : Pass) (ds : Diagnostics) : Pass :=
  { s with
    diagnostics := s.diagnostics ++ ds
    errorCount := s.errorCount + ds.errorCount
    warningCount := s.warningCount + ds.warningCount }

/-- The state with a different store. -/
def Pass.storing (s : Pass) (store : Store) : Pass := { s with store }

namespace Annotations

/-- The symbol of a node is recorded, whatever was recorded before. -/
def withSymbol (notes : Annotations) (node : NodeId) (symbol : SymbolRef) : Annotations :=
  { notes with symbols := notes.symbols.put node symbol }

def withScope (notes : Annotations) (node : NodeId) (scope : ScopeRef) : Annotations :=
  { notes with scopes := notes.scopes.put node scope }

def withSignature (notes : Annotations) (node : NodeId) (signature : Signature) : Annotations :=
  { notes with signatures := notes.signatures.put node signature }

def withType (notes : Annotations) (node : NodeId) (type : Ty) : Annotations :=
  { notes with types := notes.types.put node type }

theorem fillSymbol_eq {notes : Annotations} {node : NodeId} (symbol : SymbolRef)
    (h : notes.symbols.get node = none) :
    notes.fillSymbol node symbol = .ok (notes.withSymbol node symbol) := by
  simp [fillSymbol, Cells.fill, h, withSymbol, Except.map]

theorem fillScope_eq {notes : Annotations} {node : NodeId} (scope : ScopeRef)
    (h : notes.scopes.get node = none) :
    notes.fillScope node scope = .ok (notes.withScope node scope) := by
  simp [fillScope, Cells.fill, h, withScope, Except.map]

theorem fillSignature_eq {notes : Annotations} {node : NodeId} (signature : Signature)
    (h : notes.signatures.get node = none) :
    notes.fillSignature node signature = .ok (notes.withSignature node signature) := by
  simp [fillSignature, Cells.fill, h, withSignature, Except.map]

/-- A cell that is filled refuses. -/
theorem fillSymbol_taken {notes : Annotations} {node : NodeId} {old : SymbolRef}
    (symbol : SymbolRef) (h : notes.symbols.get node = some old) :
    notes.fillSymbol node symbol = .error old := by
  simp [fillSymbol, Cells.fill, h, Except.map]

theorem fillScope_taken {notes : Annotations} {node : NodeId} {old : ScopeRef} (scope : ScopeRef)
    (h : notes.scopes.get node = some old) : notes.fillScope node scope = .error old := by
  simp [fillScope, Cells.fill, h, Except.map]

theorem fillSignature_taken {notes : Annotations} {node : NodeId} {old : Signature}
    (signature : Signature) (h : notes.signatures.get node = some old) :
    notes.fillSignature node signature = .error old := by
  simp [fillSignature, Cells.fill, h, Except.map]

theorem fillType_taken {notes : Annotations} {e : Expr} {old : Ty} (type : Ty)
    (h : notes.typeOf e = some old) : notes.fillType e type = .error old := by
  unfold fillType
  rw [h]

theorem typeOf_eq {notes : Annotations} {e : Expr} (he : ∀ id token given, e ≠ .literal id token given) :
    notes.typeOf e = notes.types.get e.id := by
  cases e with
  | literal id token given => exact absurd rfl (he id token given)
  | _ => rfl

theorem fillType_eq {notes : Annotations} {e : Expr} (type : Ty)
    (he : ∀ id token given, e ≠ .literal id token given) (h : notes.types.get e.id = none) :
    notes.fillType e type = .ok (notes.withType e.id type) := by
  unfold fillType
  rw [typeOf_eq he, h]
  cases e with
  | literal id token given => exact absurd rfl (he id token given)
  | _ => rfl

end Annotations

namespace Pass

theorem bind_ok {α β : Type} {x : PassM α} {f : α → PassM β} {s t : Pass} {b : β} :
    (x >>= f).run s = .ok b t ↔ ∃ a u, x.run s = .ok a u ∧ (f a).run u = .ok b t := by
  rw [EStateM.run_bind]
  cases x.run s with
  | error e u =>
    constructor
    · rintro ⟨⟩
    · rintro ⟨_, _, ⟨⟩, _⟩
  | ok a u =>
    refine ⟨fun h => ⟨a, u, rfl, h⟩, ?_⟩
    rintro ⟨_, _, ⟨⟩, h⟩
    exact h

/-- What is done where a function begins, once it was declared: its scope is opened as that of any
node is, and then the function is the one around. -/
def openFunction (f : Function) : PassM Unit := do
  (do let scope ← openScope f.name.name
      recordScope f.id scope (.scopeOf f.name.name) : PassM Unit)
  modify fun p => { p with function := some f }

theorem visit_enterFunction (f : Function) : visit (.enterFunction f) = (do
    let _ ← declareFunction f
    openFunction f) := by
  simp only [visit, openFunction, bind_assoc]

theorem report_run (s : Pass) (severity : Severity) (position : Position) (finding : Finding) :
    ∃ log, (report severity position finding).run s
      = .ok () ((s.reporting [⟨severity, position, finding⟩]).logged log) := by
  cases severity with
  | error => exact ⟨_, rfl⟩
  | warning => exact ⟨_, rfl⟩

theorem record_run {α : Type} {s : Pass} {subject : Subject}
    {fill : Annotations → Except α Annotations} {notes : Annotations}
    (h : fill s.store.notes = .ok notes) :
    (record subject fill).run s = .ok () (s.storing (s.store.annotate notes)) := by
  simp only [record, EStateM.run_bind, EStateM.run_get, h]
  rfl

theorem recordType_run {s : Pass} {e : Expr} (type : Ty)
    (he : ∀ id token given, e ≠ .literal id token given)
    (h : s.store.notes.types.get e.id = none) :
    ∃ log, (recordType e type).run s
      = .ok () ((s.storing (s.store.annotate (s.store.notes.withType e.id type))).logged log) := by
  refine ⟨s.log.push (.typed e.position type), ?_⟩
  simp only [recordType, note, EStateM.run_bind, EStateM.run_modify]
  exact record_run (Annotations.fillType_eq type he h)

/-- The outcome of a type rule is reported, and its type handed on. -/
theorem apply_run (s : Pass) (position : Position) (checked : Except TypeError Checked) :
    ∃ log ds, (apply position checked).run s
      = .ok (checked.toOption.map Checked.type) ((s.reporting ds).logged log) ∧
      ds = (match checked with
        | .ok { warning := some warning, .. } => [⟨.warning, position, .conversion warning⟩]
        | .ok _ => []
        | .error e => [⟨.error, position, .typing e⟩]) := by
  cases checked with
  | error e => exact ⟨_, _, rfl, rfl⟩
  | ok result =>
    obtain ⟨type, warning⟩ := result
    cases warning with
    | some warning => exact ⟨_, _, rfl, rfl⟩
    | none =>
      refine ⟨s.log, [], ?_, rfl⟩
      simp only [apply, reporting, List.append_nil]
      rfl

/-! ## Scopes -/

/-- The state once a node has opened a scope inside the active one. -/
def opening (s : Pass) (node : NodeId) : Pass :=
  { s with
    store := (s.store.addScope { id := s.stack.next, parent := s.stack.active }).annotate
      (s.store.notes.withScope node s.store.scopes.size)
    stack :=
      { root := s.stack.root.or (some s.store.scopes.size)
        active := some s.store.scopes.size
        next := s.stack.next + 1 } }

theorem open_run {s : Pass} {node : NodeId} (label : String) (subject : Subject)
    (h : s.store.notes.scopes.get node = none) :
    ∃ log, (do let scope ← openScope label; recordScope node scope subject : PassM Unit).run s
      = .ok () ((s.opening node).logged log) := by
  simp only [openScope, createScope, note, recordScope, record, EStateM.run_bind, EStateM.run_get,
    EStateM.run_modify, EStateM.run_pure]
  rw [Annotations.fillScope_eq _ (by exact h)]
  exact ⟨_, rfl⟩

theorem leaveScope_run {s : Pass} {scope : ScopeRef} (h : s.stack.active = some scope) :
    ∃ log, leaveScope.run s
      = .ok (s.store.scope scope).parent
          { s with stack := { s.stack with active := (s.store.scope scope).parent }, log } := by
  simp only [leaveScope, note, EStateM.run_bind, EStateM.run_get, h, EStateM.run_modify]
  exact ⟨_, rfl⟩

theorem activeScope_run {s : Pass} {scope : ScopeRef} (h : s.stack.active = some scope) :
    activeScope.run s = .ok scope s := by
  simp only [activeScope, EStateM.run_bind, EStateM.run_get, h]
  rfl

/-! ## Names -/

/-- What all declarations do with their symbol: it is bound in the active scope and, if the name was
free, recorded under the node of the declaration. -/
def bindAt (node : NodeId) (ref : SymbolRef) (subject : Subject) : PassM (Option SymbolRef) := do
  let bound ← bind (← activeScope) ref
  if let some ref := bound then
    recordSymbol node ref subject
  return bound

theorem declare_eq (decl : Decl) (symbol : Symbol) :
    declare decl symbol = (do
      let ref ← makeSymbol symbol
      if symbol.type = .nothing then
        reportError symbol.position (.semantic (.nothingData symbol.name))
      bindAt decl.id ref (.declaration decl.text)) := rfl

theorem declareFunction_eq {s : Pass} (f : Function) (h : s.header = none) :
    (declareFunction f).run s = (do
      let returns ← ofExcept (typeNamed f.returns)
      let ref ← makeSymbol (.ofFunction f returns)
      let bound ← bindAt f.id ref (.function f.name.name)
      modify fun p => { p with header := some { returns, name := f.name.name, params := [] } }
      return bound : PassM (Option SymbolRef)).run s := by
  rw [declareFunction, EStateM.run_bind, EStateM.run_get]
  dsimp only
  rw [h]
  refine congrArg (EStateM.run · s) (bind_congr fun returns => bind_congr fun ref => ?_)
  simp only [bindAt, bind_assoc]
  refine bind_congr fun scope => bind_congr fun bound => ?_
  cases bound <;> simp only [bind_assoc, pure_bind]

theorem bindAt_run_free {s : Pass} {scope : ScopeRef} {ref : SymbolRef} {node : NodeId}
    (subject : Subject) (ha : s.stack.active = some scope)
    (hf : s.store.find? scope (s.store.symbol ref).name = none)
    (hn : s.store.notes.symbols.get node = none) :
    ∃ log, (bindAt node ref subject).run s
      = .ok (some ref) ((s.storing ((s.store.bindIn scope ref).annotate
          (s.store.notes.withSymbol node ref))).logged log) := by
  simp only [bindAt, bind, note, recordSymbol, record, EStateM.run_bind, activeScope_run ha,
    EStateM.run_get, hf, EStateM.run_modify, EStateM.run_pure]
  rw [Annotations.fillSymbol_eq _ (by exact hn)]
  exact ⟨_, rfl⟩

/-- A name that is taken is reported, and the store stays as it is. -/
theorem bindAt_run_taken {s : Pass} {scope : ScopeRef} {ref old : SymbolRef} (node : NodeId)
    (subject : Subject) (ha : s.stack.active = some scope)
    (hf : s.store.find? scope (s.store.symbol ref).name = some old) :
    ∃ log, (bindAt node ref subject).run s
      = .ok none ((s.reporting [⟨.error, (s.store.symbol ref).position, .semantic
          (.duplicateSymbol (s.store.symbol ref).name (s.store.symbol old).cls
            (s.store.symbol old).position)⟩]).logged log) := by
  simp only [bindAt, bind, EStateM.run_bind, activeScope_run ha, EStateM.run_get, hf]
  exact ⟨_, rfl⟩

theorem resolveAt_run_ok {s : Pass} {scope : ScopeRef} {node : NodeId} {name : Identifier}
    {use : Use} {ref : SymbolRef} (subject : Subject) (ha : s.stack.active = some scope)
    (hf : s.store.find? scope name.name = some ref)
    (hc : (s.store.symbol ref).cls = use.expects) (hn : s.store.notes.symbols.get node = none) :
    ∃ log, (resolveAt node name use subject).run s
      = .ok () ((s.storing ((s.store.modifySymbol ref fun x => { x with refs := x.refs + 1 }).annotate
          (s.store.notes.withSymbol node ref))).logged log) := by
  simp only [resolveAt, resolve, countRef, note, recordSymbol, record, EStateM.run_bind,
    activeScope_run ha, EStateM.run_get, hf, if_pos hc, EStateM.run_modify, EStateM.run_pure]
  rw [Annotations.fillSymbol_eq _ (by exact hn)]
  exact ⟨_, rfl⟩

theorem resolveAt_run_undefined {s : Pass} {scope : ScopeRef} {name : Identifier} (node : NodeId)
    (use : Use) (subject : Subject) (ha : s.stack.active = some scope)
    (hf : s.store.find? scope name.name = none) :
    ∃ log, (resolveAt node name use subject).run s
      = .ok () ((s.reporting [⟨.error, name.position, .semantic
          (.undefinedSymbol name.name)⟩]).logged log) := by
  simp only [resolveAt, resolve, EStateM.run_bind, activeScope_run ha, EStateM.run_get, hf]
  exact ⟨_, rfl⟩

theorem resolveAt_run_mismatch {s : Pass} {scope : ScopeRef} {name : Identifier} {use : Use}
    {ref : SymbolRef} (node : NodeId) (subject : Subject) (ha : s.stack.active = some scope)
    (hf : s.store.find? scope name.name = some ref)
    (hc : (s.store.symbol ref).cls ≠ use.expects) :
    ∃ log, (resolveAt node name use subject).run s
      = .ok () ((s.reporting [⟨.error, name.position, .semantic
          (use.mismatch name.name)⟩]).logged log) := by
  simp only [resolveAt, resolve, EStateM.run_bind, activeScope_run ha, EStateM.run_get, hf, if_neg hc]
  exact ⟨_, rfl⟩

end Pass

end Semant
