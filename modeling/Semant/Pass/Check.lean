import Semant.Pass.Names

/-!
# Checking a program

One walk does everything: scopes are opened and left, declarations bound, names resolved and
expressions typed in the order of the text. A name is therefore visible from its own declaration
on, and a function in its own body.

An expression whose type cannot be told has no type, and nothing is reported about an expression
because one of its operands has none. So one mistake in a program makes one diagnostic.

A check records its findings on the nodes of the tree, and each cell only once. It expects the cells
of the program to be empty, and all that it takes from earlier passes are the types of literals.
-/

set_option autoImplicit false

namespace Semant

namespace Pass

def apply (position : Position) (checked : Except TypeError Checked) : PassM (Option Ty) := do
  match checked with
  | .ok { type, warning } =>
    if let some warning := warning then
      reportWarning position (.conversion warning)
    return some type
  | .error e =>
    reportError position (.typing e)
    return none

def openScope (node : String) : PassM ScopeRef := do
  let ref ← createScope
  note (.scopeOpened node ((← get).store.scopeId ref))
  return ref

/-- Resolves a name in the active scope and records its symbol on the node that uses it. A name that
cannot be resolved leaves the node without a symbol, and that is how what is typed later knows that
it has been reported. -/
def resolveAt (node : NodeId) (name : Identifier) (use : Use) (subject : Subject) :
    PassM Unit := do
  match ← resolve (← activeScope) name use with
  | .ok ref => recordSymbol node ref subject
  | .error e => reportError name.position (.semantic e)

def typeBy (e : Expr) (position : Position) (checked : Except TypeError Checked) :
    PassM Unit := do
  if let some type ← apply position checked then
    recordType e type

/-- Checks the value of a `return` against the function around it. Outside functions anything may
be returned. -/
def checkReturn (keyword : Token) (value : Option Expr) : PassM Unit := do
  let some f := (← get).function | return
  let name := f.name.name
  let returns ← ofExcept (typeNamed f.returns)
  match value with
  | none =>
    if returns ≠ .nothing then
      reportError keyword.position (.semantic (.missingReturnValue name returns))
  | some value =>
    if returns = .nothing then
      reportError keyword.position (.semantic (.unexpectedReturnValue name))
    else if let some type ← typeOf value then
      let _ ← apply keyword.position (Rules.assignment returns type)

/-- Checks the initial value of data. A declaration as `nothing` has been reported already. -/
def checkInit (d : DataDef) : PassM Unit := do
  let target ← ofExcept (typeNamed d.decl.type)
  if target = .nothing then
    return
  let some init := d.init | return
  let some value ← typeOf init | return
  let some _ ← apply d.decl.name.position (Rules.assignment target value) | return
  if let some ref ← symbolOf d.decl.id then
    markInit ref

/-- Checks the value that is stored under a name. An assignment of the wrong type does not count as
giving the name a value. -/
def checkAssign (a : Assignment) : PassM Unit := do
  let some ref ← symbolOf a.id | return
  let some value ← typeOf a.value | return
  let target := ((← get).store.symbol ref).type
  if let some _ ← apply a.target.position (Rules.assignment target value) then
    markInit ref

/-- Checks the arguments of a call. Whatever they are, the call has the function's return type, so
that a wrong argument is not reported again by what uses the call. -/
def checkCall (e : Expr) (callee : Identifier) (args : List Expr) : PassM Unit := do
  let some ref ← symbolOf e.nameNode | return
  let p ← get
  let symbol := p.store.symbol ref
  match symbol.signature with
  | none => throw (.missingSignature symbol.name)
  | some signature =>
    if let .error e := signature.validate (args.map p.store.notes.typeOf) then
      reportError callee.position (.call e)
    recordType e signature.returns

def visit : Event → PassM Unit
  | .enterProgram p => do
    let root ← openScope "program"
    recordScope p.id root (.program p.file)
  | .exitProgram _ => do
    let _ ← leaveScope
  -- a `return` in here has no function to be checked against
  | .enterStart _ => modify fun p => { p with function := none }
  | .enterDecl d => do
    let _ ← declareData d
  | .exitData d => checkInit d
  | .enterFunction f => do
    let _ ← declareFunction f
    let scope ← openScope f.name.name
    recordScope f.id scope (.scopeOf f.name.name)
    modify fun p => { p with function := some f }
  | .exitFunction _ => do
    let _ ← leaveScope
    modify fun p => { p with function := none }
  | .enterParam _ d => do
    let _ ← declareParam d
  -- before the body, where the function may be called already
  | .exitParams f => finishSignature f
  | .enterBlock b => do
    let scope ← openScope "block"
    recordScope b.id scope (.block b.position)
  | .exitBlock _ => do
    let _ ← leaveScope
  | .enterAssign a => resolveAt a.id a.target .target (.assignment a.target.position)
  | .exitAssign a => checkAssign a
  | .exitReturn keyword value => checkReturn keyword value
  -- a literal has its type from the front end, and no rule could find one for it
  | .exitLiteral e token => do
    if (← typeOf e).isNone then
      throw (.untypedLiteral token.raw token.position)
  | .enterVariable e name => resolveAt e.nameNode name .value (.variable name.position)
  | .exitVariable e _ => do
    if let some ref ← symbolOf e.nameNode then
      recordType e ((← get).store.symbol ref).type
  | .enterCall e callee _ => resolveAt e.nameNode callee .callee (.call callee.position)
  | .exitCall e callee args => checkCall e callee args
  | .exitBinary e op token lhs rhs => do
    let some lhs ← typeOf lhs | return
    let some rhs ← typeOf rhs | return
    typeBy e token.position (Rules.binary op lhs rhs)
  | .exitUnary e op token operand => do
    let some operand ← typeOf operand | return
    typeBy e token.position (Rules.unary op operand)
  -- the target is looked at first: a malformed tree counts more than an operand without a type
  | .exitCast e target operand => do
    let type ← ofExcept (typeNamed target)
    let some source ← typeOf operand | return
    typeBy e target.position (Rules.cast type source)
  | .exitGrouped e inner => do
    if let some type ← typeOf inner then
      recordType e type
  | .exitFormat e _ _ => recordType e .string
  | _ => return

def start (literals : Cells Ty) : Pass :=
  { store := { notes := { literals } } }

/-- The note about emptied cells comes first, although emptying them is left to whoever starts the
check (`Store.checking`). -/
def check (p : Program) : PassM Unit := do
  note (.cleared p.file p.clearedNodes)
  p.walk visit

end Pass

end Semant
