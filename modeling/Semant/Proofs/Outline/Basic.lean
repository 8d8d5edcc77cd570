import Semant.Pass.Check
import Semant.Proofs.Declarations

/-!
# Outlines: the check without its tables

The check of a program keeps scopes and symbols in arrays, finds names by following links and notes
what it found under node numbers. An `Outline` is what a reader of the same events would write
down instead: which scopes are open and what was declared in each, in order. Names are found by
going through the declarations that can be seen, oldest first.

The difference is the point. The check binds a name only if no enclosing scope binds it, and drops
the symbol otherwise; an outline writes *every* declaration down and always takes the oldest. That
the two agree (`Semant.Proofs.Outline.Simulation`) is what makes the check's answers statements
about the text of the program.

`Outline.step` says how an event changes the outline and `Outline.reports` what the event reports.
Neither can fail: whether the check can take the step at all is `Outline.Permits`, which
`Semant.Proofs.Outline.Orderly` derives from the shape of trees.
-/

set_option autoImplicit false

namespace Semant

/-- A declaration with its number among all declarations of the program. -/
structure Entry where
  place : SymbolRef
  definition : Definition

/-- An open scope: the node that opened it and what was declared in it, oldest first. -/
structure Frame where
  node : NodeId
  entries : List Entry

/-- The declarations that can be seen from the innermost of some open scopes, oldest first. -/
def visible : List Frame → List Entry
  | [] => []
  | frame :: outer => visible outer ++ frame.entries

/-- The oldest of some declarations with a name. -/
def lookup (entries : List Entry) (name : String) : Option Entry :=
  entries.find? fun entry => entry.definition.name = name

/-- What a name means where some declarations can be seen, or why it means nothing. -/
def resolution (entries : List Entry) (name : Identifier) (use : Use) :
    Except SemanticError Entry :=
  match lookup entries name.name with
  | none => .error (.undefinedSymbol name.name)
  | some entry =>
    if entry.definition.cls = use.expects then .ok entry else .error (use.mismatch name.name)

/-- What was read of a program so far. -/
structure Outline where
  /-- The types that literals have been given. -/
  literals : Cells Ty
  /-- The open scopes, innermost first. -/
  frames : List Frame := []
  /-- All scopes in the order of their opening: the node and the node of the scope around it. -/
  regions : List (NodeId × Option NodeId) := []
  /-- All declarations in order, each with the node of its scope. -/
  declared : List (NodeId × Definition) := []
  /-- The signature whose parameters are being declared. -/
  header : Option Signature := none
  /-- The function whose body is being read. -/
  function : Option Function := none
  /-- For each declaration or use of a name that was read, the declaration it stands for, if any. -/
  symbols : Cells (Option Entry) := .empty
  /-- For each expression that was read and is no literal, its type, if it has one. -/
  types : Cells (Option Ty) := .empty
  signatures : Cells Signature := .empty

namespace Outline

/-- Nothing was read yet. -/
def start (literals : Cells Ty) : Outline := { literals }

/-- The declarations that can be seen. -/
def scope (o : Outline) : List Entry := visible o.frames

/-- The type of an expression, if it is known. -/
def typeOf (o : Outline) : Expr → Option Ty
  | .literal id _ given => given.or (o.literals.get id)
  | e => (o.types.get e.id).join

/-- The declaration that a node stands for. -/
def symbolOf (o : Outline) (node : NodeId) : Option Entry := (o.symbols.get node).join

/-! ## What an event changes -/

/-- A node opens a scope. -/
def opened (o : Outline) (node : NodeId) : Outline :=
  { o with
    frames := ⟨node, []⟩ :: o.frames
    regions := o.regions ++ [(node, o.frames.head?.map Frame.node)] }

/-- The innermost scope is left. -/
def closed (o : Outline) : Outline := { o with frames := o.frames.tail }

/-- The entry of the next declaration. -/
def entryOf (o : Outline) (d : Definition) : Entry := ⟨o.declared.length, d⟩

/-- A declaration is written down in the innermost scope, with what its node stands for. -/
def write (o : Outline) (d : Definition) (stands : Option Entry) : Outline :=
  match o.frames with
  | [] => o
  | frame :: outer =>
    { o with
      frames := { frame with entries := frame.entries ++ [o.entryOf d] } :: outer
      declared := o.declared ++ [(frame.node, d)]
      symbols := o.symbols.put d.id stands }

/-- A name is declared. The node stands for its own declaration, unless the name was taken. -/
def declare (o : Outline) (d : Definition) : Outline :=
  o.write d (if (lookup o.scope d.name).isSome then none else some (o.entryOf d))

/-- A name is used. -/
def refer (o : Outline) (node : NodeId) (name : Identifier) (use : Use) : Outline :=
  { o with symbols := o.symbols.put node (resolution o.scope name use).toOption }

/-- The type of an expression turns out. -/
def settle (o : Outline) (e : Expr) (type : Option Ty) : Outline :=
  { o with types := o.types.put e.id type }

/-- The question that an event puts to the type rules, with the place it is about. Nothing is asked
as long as a type is missing. -/
def question (o : Outline) : Event → Option (Position × Except TypeError Checked)
  | .exitBinary _ op token lhs rhs => do
    let lhs ← o.typeOf lhs
    let rhs ← o.typeOf rhs
    return (token.position, Rules.binary op lhs rhs)
  | .exitUnary _ op token operand => do
    let operand ← o.typeOf operand
    return (token.position, Rules.unary op operand)
  | .exitCast _ target operand => do
    let operand ← o.typeOf operand
    return (target.position, Rules.cast target.named operand)
  | .exitData d => do
    let value ← d.init.bind o.typeOf
    if d.decl.type.named = .nothing then none
    else return (d.decl.name.position, Rules.assignment d.decl.type.named value)
  | .exitAssign a => do
    let entry ← o.symbolOf a.id
    let value ← o.typeOf a.value
    return (a.target.position, Rules.assignment entry.definition.type value)
  | .exitReturn keyword value => do
    let f ← o.function
    let value ← value.bind o.typeOf
    if f.returns.named = .nothing then none
    else return (keyword.position, Rules.assignment f.returns.named value)
  | _ => none

/-- The type that the rules give to an operation. -/
def answer (o : Outline) (event : Event) : Option Ty :=
  (o.question event).bind fun (_, checked) => checked.toOption.map Checked.type

/-- The outline after one more event. -/
def step (o : Outline) : Event → Outline
  | .enterProgram p => o.opened p.id
  | .exitProgram _ | .exitBlock _ => o.closed
  | .enterStart _ => { o with function := none }
  | .enterDecl d => o.declare (.data d)
  | .enterFunction f =>
    { (o.declare (.function f)).opened f.id with
      function := some f
      header := some { f.signature with params := [] } }
  | .exitFunction _ => { o.closed with function := none }
  | .enterParam _ d =>
    { o.declare (.data d) with
      header := o.header.map fun h => { h with params := h.params ++ [d.type.named] } }
  | .exitParams f => { o with header := none, signatures := o.signatures.put f.id f.signature }
  | .enterBlock b => o.opened b.id
  | .enterAssign a => o.refer a.id a.target .target
  | .enterVariable e name => o.refer e.nameNode name .value
  | .enterCall e callee _ => o.refer e.nameNode callee .callee
  | .exitVariable e _ | .exitCall e _ _ =>
    o.settle e ((o.symbolOf e.nameNode).map fun entry => entry.definition.type)
  | .exitBinary e op token lhs rhs => o.settle e (o.answer (.exitBinary e op token lhs rhs))
  | .exitUnary e op token operand => o.settle e (o.answer (.exitUnary e op token operand))
  | .exitCast e target operand => o.settle e (o.answer (.exitCast e target operand))
  | .exitGrouped e inner => o.settle e (o.typeOf inner)
  | .exitFormat e _ _ => o.settle e (some .string)
  | _ => o

/-- The outline after some more events. -/
def run (o : Outline) (events : List Event) : Outline := events.foldl step o

@[simp]
theorem run_nil (o : Outline) : o.run [] = o := rfl

@[simp]
theorem run_cons (o : Outline) (event : Event) (rest : List Event) :
    o.run (event :: rest) = (o.step event).run rest := rfl

@[simp]
theorem run_append (o : Outline) (first rest : List Event) :
    o.run (first ++ rest) = (o.run first).run rest := by
  simp [run]

/-! ## What an event reports -/

/-- The report of a name that is declared again. -/
def duplicate (o : Outline) (d : Definition) : Diagnostics :=
  match lookup o.scope d.name with
  | none => []
  | some old =>
    [⟨.error, d.identifier.position, .semantic
      (.duplicateSymbol d.name old.definition.cls old.definition.identifier.position)⟩]

/-- The report of data that is declared as `nothing`. -/
def valueless (d : Definition) : Diagnostics :=
  if d.type = .nothing then [⟨.error, d.identifier.position, .semantic (.nothingData d.name)⟩]
  else []

/-- The report of a name that does not mean what its use asks for. -/
def unresolved (o : Outline) (name : Identifier) (use : Use) : Diagnostics :=
  match resolution o.scope name use with
  | .ok _ => []
  | .error e => [⟨.error, name.position, .semantic e⟩]

/-- The report of what a type rule said. -/
def ruling (position : Position) : Except TypeError Checked → Diagnostics
  | .ok { warning := some warning, .. } => [⟨.warning, position, .conversion warning⟩]
  | .ok _ => []
  | .error e => [⟨.error, position, .typing e⟩]

/-- The report of arguments that do not fit the function that is called. -/
def misfit (o : Outline) (e : Expr) (callee : Identifier) (args : List Expr) : Diagnostics :=
  match o.symbolOf e.nameNode with
  | some ⟨_, .function f⟩ =>
    match f.signature.validate (args.map o.typeOf) with
    | .ok _ => []
    | .error e => [⟨.error, callee.position, .call e⟩]
  | _ => []

/-- The report of a `return` with a value too many or too few. -/
def misreturn (o : Outline) (keyword : Token) (value : Option Expr) : Diagnostics :=
  match o.function, value with
  | none, _ => []
  | some f, none =>
    if f.returns.named = .nothing then []
    else [⟨.error, keyword.position, .semantic (.missingReturnValue f.name.name f.returns.named)⟩]
  | some f, some _ =>
    if f.returns.named = .nothing then
      [⟨.error, keyword.position, .semantic (.unexpectedReturnValue f.name.name)⟩]
    else []

/-- What an event reports about names, calls and returns, the type rules apart. -/
def remarks (o : Outline) : Event → Diagnostics
  | .enterDecl d | .enterParam _ d => valueless (.data d) ++ o.duplicate (.data d)
  | .enterFunction f => o.duplicate (.function f)
  | .enterAssign a => o.unresolved a.target .target
  | .enterVariable _ name => o.unresolved name .value
  | .enterCall _ callee _ => o.unresolved callee .callee
  | .exitCall e callee args => o.misfit e callee args
  | .exitReturn keyword value => o.misreturn keyword value
  | _ => []

/-- What an event reports. -/
def reports (o : Outline) (event : Event) : Diagnostics :=
  o.remarks event ++ (o.question event).elim [] fun (position, checked) => ruling position checked

/-- Everything that some events report, each with its event. -/
def journal (o : Outline) : List Event → List (Event × Diagnostics)
  | [] => []
  | event :: rest => (event, o.reports event) :: (o.step event).journal rest

@[simp]
theorem journal_append (o : Outline) (first rest : List Event) :
    o.journal (first ++ rest) = o.journal first ++ (o.run first).journal rest := by
  induction first generalizing o with
  | nil => rfl
  | cons event first ih => simp [journal, ih]

end Outline

end Semant
