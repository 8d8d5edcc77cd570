import Semant.Pass.Basic

/-!
# Declaring and resolving names

A declaration makes a symbol and binds it in the active scope. A name may be bound only if neither
that scope nor one around it binds it already; otherwise the declaration is reported and its symbol
dropped, and the older binding stays.

A function is declared in two steps, because its parameters come after its name and the function
may be called in its own body. `declareFunction` binds the name and opens a signature,
`declareParam` adds to it, and `finishSignature` closes it and stores it on the function and on its
symbol. Only one signature can be open.
-/

set_option autoImplicit false

namespace Semant

def typeNamed (token : Token) : Except InternalError Ty :=
  match token.type? with
  | some type => .ok type
  | none => .error (.notATypeName token.raw token.position)

inductive Use where
  | value
  | target
  | callee
  deriving DecidableEq, Repr

namespace Use

def expects : Use → SymbolClass
  | value | target => .data
  | callee => .function

def mismatch : Use → String → SemanticError
  | value => .functionAsValue
  | target => .assignToFunction
  | callee => .notAFunction

end Use

inductive LookupError where
  | refused (error : SemanticError)
  /-- The symbol is there and fits, but its count is at its end. -/
  | overflow
  deriving DecidableEq, Repr

namespace Pass

/-- Adds a symbol to the store. Binding comes later and may be refused; the symbol then stays in the
store without a name that leads to it. -/
def makeSymbol (symbol : Symbol) : PassM SymbolRef := do
  let ref := (← get).store.symbols.size
  modify fun p => { p with store := p.store.addSymbol symbol }
  return ref

/-- Binds a symbol in a scope, unless its name is taken there or further out. That outer scopes
count is what keeps a name from being shadowed. -/
def bind (scope : ScopeRef) (ref : SymbolRef) : PassM (Option SymbolRef) := do
  let store := (← get).store
  let symbol := store.symbol ref
  match store.find? scope symbol.name with
  | some existing =>
    let existing := store.symbol existing
    reportError symbol.position
      (.semantic (.duplicateSymbol symbol.name existing.cls existing.position))
    return none
  | none =>
    note (.bound symbol.text symbol.type (store.scopeId scope))
    modify fun p => { p with store := p.store.bindIn scope ref }
    return some ref

/-- Binds the symbol of a declaration in the active scope and records it. Data of type `nothing` is
reported but bound all the same, so that its uses are not reported too. -/
def declare (decl : Decl) (symbol : Symbol) : PassM (Option SymbolRef) := do
  let ref ← makeSymbol symbol
  if symbol.type = .nothing then
    reportError symbol.position (.semantic (.nothingData symbol.name))
  let bound ← bind (← activeScope) ref
  if let some ref := bound then
    recordSymbol decl.id ref (.declaration decl.text)
  return bound

def declareData (decl : Decl) : PassM (Option SymbolRef) := do
  let type ← ofExcept (typeNamed decl.type)
  declare decl (.ofData decl type)

/-- The type goes into the open signature before the parameter is bound: a parameter whose name is
taken is still one that a call has to have an argument for. -/
def declareParam (decl : Decl) : PassM (Option SymbolRef) := do
  let type ← ofExcept (typeNamed decl.type)
  match (← get).header with
  | none => throw (.missingSignature decl.name.name)
  | some header =>
    modify fun p => { p with header := some { header with params := header.params ++ [type] } }
    declare decl (.ofParam decl type)

/-- The name is bound before the signature is opened, and the signature is opened even if the name
is taken, since the parameters are declared in any case. -/
def declareFunction (f : Function) : PassM (Option SymbolRef) := do
  if let some unfinished := (← get).header then
    throw (.nestedSignature f.name.name unfinished.name)
  let returns ← ofExcept (typeNamed f.returns)
  let ref ← makeSymbol (.ofFunction f returns)
  let bound ← bind (← activeScope) ref
  if let some ref := bound then
    recordSymbol f.id ref (.function f.name.name)
  modify fun p => { p with header := some { returns, name := f.name.name, params := [] } }
  return bound

def signSymbol (ref : SymbolRef) (signature : Signature) (subject : Subject) : PassM Unit := do
  if ((← get).store.symbol ref).signature.isSome then
    throw (.reannotated subject)
  modify fun p =>
    { p with store := p.store.modifySymbol ref fun s => { s with signature := some signature } }

def finishSignature (f : Function) : PassM Unit := do
  match (← get).header with
  | none => throw (.missingSignature f.name.name)
  | some signature =>
    -- closed before it is stored, so that a refusal does not leave it open
    modify fun p => { p with header := none }
    note (.signed signature)
    recordSignature f.id signature (.signatureOf f.name.name)
    if let some ref ← symbolOf f.id then
      signSymbol ref signature (.signatureOf f.name.name)

def markInit (ref : SymbolRef) : PassM Unit :=
  modify fun p =>
    { p with store := p.store.modifySymbol ref fun s => { s with isInit := true } }

/-- Counts one more reference to a symbol. Behind the largest word the count begins again, but no
check gets there: it counts references to its own symbols only, one for each node that it comes to,
and a tree of 2³² nodes is more than memory holds. Counting by hand is not bounded in this way, and
looks at the count first (`reference`). -/
def countRef (ref : SymbolRef) : PassM Unit :=
  modify fun p =>
    { p with store := p.store.modifySymbol ref fun s => { s with refs := s.refs + 1 } }

/-- Finds the symbol that a name means at a place where it is used. Only a fitting use counts as a
reference. -/
def resolve (scope : ScopeRef) (name : Identifier) (use : Use) :
    PassM (Except SemanticError SymbolRef) := do
  let store := (← get).store
  match store.find? scope name.name with
  | none => return .error (.undefinedSymbol name.name)
  | some ref =>
    let symbol := store.symbol ref
    if symbol.cls = use.expects then
      countRef ref
      note (.resolved name symbol.text (symbol.refs + 1))
      return .ok ref
    else
      return .error (use.mismatch name.name)

/-! ## References by hand

Names can also be looked up without a tree, as often as one likes. The count of a symbol is then
bound to reach the largest word some time. Going on would be an overflow, and instead nothing
happens. -/

def reference (ref : SymbolRef) : PassM Bool := do
  if ((← get).store.symbol ref).isFull then
    return false
  countRef ref
  return true

/-- Whether there is room is looked at before anything is done, and only where a reference would be
counted. An unfitting use of a symbol whose count is at its end is refused like any other. -/
def lookup (scope : ScopeRef) (name : Identifier) (use : Use) :
    PassM (Except LookupError SymbolRef) := do
  let store := (← get).store
  let full := (store.find? scope name.name).any fun ref =>
    (store.symbol ref).cls = use.expects && (store.symbol ref).isFull
  if full then
    return .error .overflow
  match ← resolve scope name use with
  | .ok ref => return .ok ref
  | .error e => return .error (.refused e)

end Pass

end Semant
