import Semant.Pass.Check
import Semant.Proofs.Nodes

/-!
# Renaming

Names are text that programs choose. A renaming replaces them, wherever data, parameters and functions
are declared and wherever they are used. Names of types are not names in this sense, even if they are
spelled alike, and so are not touched; nor are literals, the texts of operators and keywords, and places.

The same is then said of everything that carries names: events, symbols, signatures and diagnostics. Of
internal errors only a relation is left (`InternalError.Renames`), since the text of a declaration
does not tell its type from its name.
-/

set_option autoImplicit false

namespace Semant

variable (f : String → String)

/-! ## Trees -/

def Identifier.rename (i : Identifier) : Identifier := { i with name := f i.name }

mutual

/-- The expression with other names. -/
def Expr.rename : Expr → Expr
  | .literal id token given => .literal id token given
  | .var id node name => .var id node (name.rename f)
  | .call id node callee args => .call id node (callee.rename f) (Expr.renameList args)
  | .binary id op token lhs rhs => .binary id op token lhs.rename rhs.rename
  | .unary id op token operand => .unary id op token operand.rename
  | .cast id target operand => .cast id target operand.rename
  | .grouped id inner => .grouped id inner.rename
  | .format id token args => .format id token (Expr.renameList args)

def Expr.renameList : List Expr → List Expr
  | [] => []
  | e :: rest => e.rename :: Expr.renameList rest

end

def Decl.rename (d : Decl) : Decl := { d with name := d.name.rename f }

def DataDef.rename (d : DataDef) : DataDef :=
  { decl := d.decl.rename f, init := d.init.map (Expr.rename f) }

def Assignment.rename (a : Assignment) : Assignment :=
  { a with target := a.target.rename f, value := a.value.rename f }

mutual

def Stmt.rename : Stmt → Stmt
  | .data definition => .data (definition.rename f)
  | .assign assignment => .assign (assignment.rename f)
  | .expr value => .expr (value.rename f)
  | .branch conditional => .branch conditional.rename
  | .whileLoop keyword cond body => .whileLoop keyword (cond.map (Expr.rename f)) body.rename
  | .doLoop keyword body cond => .doLoop keyword body.rename (cond.map (Expr.rename f))
  | .ret keyword value => .ret keyword (value.map (Expr.rename f))
  | .yield keyword value => .yield keyword (value.map (Expr.rename f))
  | .brk keyword => .brk keyword
  | .cont keyword => .cont keyword
  | .inline keyword text => .inline keyword text
  | .block body => .block body.rename

def Block.rename : Block → Block
  | .mk id brace body => .mk id brace (Stmt.renameList body)

def Stmt.renameList : List Stmt → List Stmt
  | [] => []
  | s :: rest => s.rename :: Stmt.renameList rest

def Conditional.rename : Conditional → Conditional
  | .mk keyword cond body otherwise => .mk keyword (cond.rename f) body.rename otherwise.rename

def Else.rename : Else → Else
  | .none => .none
  | .elseIf next => .elseIf next.rename
  | .block body => .block body.rename

end

def Function.rename (g : Function) : Function :=
  { g with
    name := g.name.rename f
    params := g.params.map (Decl.rename f)
    body := g.body.rename f }

def Item.rename : Item → Item
  | .imports i => .imports i
  | .data definition => .data (definition.rename f)
  | .function g => .function (g.rename f)
  | .start s => .start { s with body := s.body.rename f }

/-- The program with other names. -/
def Program.rename (p : Program) : Program := { p with items := p.items.map (Item.rename f) }

/-! What is known about a node is found under its number, so renamed nodes share it. -/

@[simp]
theorem Expr.id_rename (e : Expr) : (e.rename f).id = e.id := by cases e <;> rfl

@[simp]
theorem Expr.nameNode_rename (e : Expr) : (e.rename f).nameNode = e.nameNode := by cases e <;> rfl

@[simp]
theorem Expr.position_rename : ∀ e : Expr, (e.rename f).position = e.position
  | .grouped _ inner => inner.position_rename
  | .literal .. | .var .. | .call .. | .binary .. | .unary .. | .cast .. | .format .. => rfl

@[simp]
theorem Expr.isLiteral_rename (e : Expr) : (e.rename f).isLiteral = e.isLiteral := by cases e <;> rfl

theorem Expr.renameList_eq_map (es : List Expr) : Expr.renameList f es = es.map (Expr.rename f) := by
  induction es with
  | nil => rfl
  | cons e rest ih => rw [Expr.renameList, List.map_cons, ih]

theorem Annotations.typeOf_rename (notes : Annotations) (e : Expr) :
    notes.typeOf (e.rename f) = notes.typeOf e := by
  cases e <;> rfl

/-! ## Events -/

def Event.rename : Event → Event
  | .enterProgram p => .enterProgram (p.rename f)
  | .exitProgram p => .exitProgram (p.rename f)
  | .enterImport i => .enterImport i
  | .enterStart s => .enterStart { s with body := s.body.rename f }
  | .exitStart s => .exitStart { s with body := s.body.rename f }
  | .enterData d => .enterData (d.rename f)
  | .exitData d => .exitData (d.rename f)
  | .enterDecl d => .enterDecl (d.rename f)
  | .enterFunction g => .enterFunction (g.rename f)
  | .exitFunction g => .exitFunction (g.rename f)
  | .enterParam g d => .enterParam (g.rename f) (d.rename f)
  | .exitParams g => .exitParams (g.rename f)
  | .enterBlock b => .enterBlock (b.rename f)
  | .exitBlock b => .exitBlock (b.rename f)
  | .enterAssign a => .enterAssign (a.rename f)
  | .exitAssign a => .exitAssign (a.rename f)
  | .enterIf c => .enterIf (c.rename f)
  | .exitIf c => .exitIf (c.rename f)
  | .enterWhile keyword cond body => .enterWhile keyword (cond.map (Expr.rename f)) (body.rename f)
  | .exitWhile keyword cond body => .exitWhile keyword (cond.map (Expr.rename f)) (body.rename f)
  | .enterDo keyword body cond => .enterDo keyword (body.rename f) (cond.map (Expr.rename f))
  | .exitDo keyword body cond => .exitDo keyword (body.rename f) (cond.map (Expr.rename f))
  | .exitReturn keyword value => .exitReturn keyword (value.map (Expr.rename f))
  | .exitYield keyword value => .exitYield keyword (value.map (Expr.rename f))
  | .enterBreak keyword => .enterBreak keyword
  | .enterContinue keyword => .enterContinue keyword
  | .enterInline keyword text => .enterInline keyword text
  | .enterExpr e => .enterExpr (e.rename f)
  | .exitExpr e => .exitExpr (e.rename f)
  | .exitLiteral e token => .exitLiteral (e.rename f) token
  | .enterVariable e name => .enterVariable (e.rename f) (name.rename f)
  | .exitVariable e name => .exitVariable (e.rename f) (name.rename f)
  | .enterCall e callee args =>
    .enterCall (e.rename f) (callee.rename f) (Expr.renameList f args)
  | .exitCall e callee args => .exitCall (e.rename f) (callee.rename f) (Expr.renameList f args)
  | .exitBinary e op token lhs rhs => .exitBinary (e.rename f) op token (lhs.rename f) (rhs.rename f)
  | .exitUnary e op token operand => .exitUnary (e.rename f) op token (operand.rename f)
  | .exitCast e target operand => .exitCast (e.rename f) target (operand.rename f)
  | .exitGrouped e inner => .exitGrouped (e.rename f) (inner.rename f)
  | .exitFormat e token args => .exitFormat (e.rename f) token (Expr.renameList f args)

mutual

theorem Expr.events_rename : ∀ e : Expr, (e.rename f).events = e.events.map (Event.rename f)
  | .literal .. | .var .. => rfl
  | .call id node callee args => by
    simp [Expr.rename, Expr.events, Expr.eventsOfList_rename args, Event.rename]
  | .binary id op token lhs rhs => by
    simp [Expr.rename, Expr.events, lhs.events_rename, rhs.events_rename, Event.rename]
  | .unary id op token operand => by
    simp [Expr.rename, Expr.events, operand.events_rename, Event.rename]
  | .cast id target operand => by
    simp [Expr.rename, Expr.events, operand.events_rename, Event.rename]
  | .grouped id inner => by simp [Expr.rename, Expr.events, inner.events_rename, Event.rename]
  | .format id token args => by
    simp [Expr.rename, Expr.events, Expr.eventsOfList_rename args, Event.rename]

theorem Expr.eventsOfList_rename : ∀ es : List Expr,
    Expr.eventsOfList (Expr.renameList f es) = (Expr.eventsOfList es).map (Event.rename f)
  | [] => rfl
  | e :: rest => by
    simp [Expr.renameList, Expr.eventsOfList, e.events_rename, Expr.eventsOfList_rename rest]

end

theorem Expr.eventsOfOption_rename (e : Option Expr) :
    Expr.eventsOfOption (e.map (Expr.rename f)) = (Expr.eventsOfOption e).map (Event.rename f) := by
  cases e with
  | none => rfl
  | some e => exact e.events_rename f

theorem DataDef.events_rename (d : DataDef) :
    (d.rename f).events = d.events.map (Event.rename f) := by
  simp [DataDef.events, DataDef.rename, Expr.eventsOfOption_rename, Event.rename]

mutual

theorem Stmt.events_rename : ∀ s : Stmt, (s.rename f).events = s.events.map (Event.rename f)
  | .data definition => definition.events_rename f
  | .assign a => by
    simp [Stmt.rename, Stmt.events, Assignment.rename, Expr.events_rename, Event.rename]
  | .expr value => value.events_rename f
  | .branch conditional => conditional.events_rename
  | .whileLoop keyword cond body => by
    simp [Stmt.rename, Stmt.events, Expr.eventsOfOption_rename, body.events_rename, Event.rename]
  | .doLoop keyword body cond => by
    simp [Stmt.rename, Stmt.events, Expr.eventsOfOption_rename, body.events_rename, Event.rename]
  | .ret keyword value | .yield keyword value => by
    simp [Stmt.rename, Stmt.events, Expr.eventsOfOption_rename, Event.rename]
  | .brk _ | .cont _ | .inline _ _ => rfl
  | .block body => body.events_rename

theorem Block.events_rename : ∀ b : Block, (b.rename f).events = b.events.map (Event.rename f)
  | .mk id brace body => by
    simp [Block.rename, Block.events, Stmt.eventsOfList_rename body, Event.rename]

theorem Stmt.eventsOfList_rename : ∀ body : List Stmt,
    Stmt.eventsOfList (Stmt.renameList f body) = (Stmt.eventsOfList body).map (Event.rename f)
  | [] => rfl
  | s :: rest => by
    simp [Stmt.renameList, Stmt.eventsOfList, s.events_rename, Stmt.eventsOfList_rename rest]

theorem Conditional.events_rename : ∀ c : Conditional,
    (c.rename f).events = c.events.map (Event.rename f)
  | .mk keyword cond body otherwise => by
    simp [Conditional.rename, Conditional.events, cond.events_rename, body.events_rename,
      otherwise.events_rename, Event.rename]

theorem Else.events_rename : ∀ e : Else, (e.rename f).events = e.events.map (Event.rename f)
  | .none => rfl
  | .elseIf next => next.events_rename
  | .block body => body.events_rename

end

theorem Function.events_rename (g : Function) :
    (g.rename f).events = g.events.map (Event.rename f) := by
  simp [Function.events, Function.rename, Block.events_rename, Event.rename]

theorem Item.events_rename (item : Item) :
    (item.rename f).events = item.events.map (Event.rename f) := by
  cases item with
  | imports i => rfl
  | data definition => exact definition.events_rename f
  | function g => exact g.events_rename f
  | start s => simp [Item.rename, Item.events, Block.events_rename, Event.rename]

/-- A walk meets the same nodes in the same order. -/
theorem Program.events_rename (p : Program) :
    (p.rename f).events = p.events.map (Event.rename f) := by
  simp [Program.events, Program.rename, List.flatMap_map, List.map_flatMap, Item.events_rename,
    Event.rename]

/-! ## Symbols and signatures -/

def Signature.rename (s : Signature) : Signature := { s with name := f s.name }

def Definition.rename : Definition → Definition
  | .data decl => .data (decl.rename f)
  | .function g => .function (g.rename f)

/-- The symbol with other names. Its type, its flags and its references stay. -/
def Symbol.rename (x : Symbol) : Symbol :=
  { x with
    definition := x.definition.rename f
    signature := x.signature.map (Signature.rename f) }

@[simp]
theorem Symbol.name_rename (x : Symbol) : (x.rename f).name = f x.name := by
  obtain ⟨_ | _⟩ := x <;> rfl

@[simp]
theorem Symbol.position_rename (x : Symbol) : (x.rename f).position = x.position := by
  obtain ⟨_ | _⟩ := x <;> rfl

theorem Symbol.isConst_rename (x : Symbol) : (x.rename f).isConst = x.isConst := by
  obtain ⟨_ | _⟩ := x <;> rfl

theorem Symbol.isIterator_rename (x : Symbol) : (x.rename f).isIterator = x.isIterator := by
  obtain ⟨_ | _⟩ := x <;> rfl

/-! ## Diagnostics -/

def CallError.rename : CallError → CallError
  | .arityMismatch expected found => .arityMismatch expected found
  | .signatureMismatch expected found => .signatureMismatch (expected.rename f) (found.rename f)

def SemanticError.rename : SemanticError → SemanticError
  | .duplicateSymbol name cls position => .duplicateSymbol (f name) cls position
  | .undefinedSymbol name => .undefinedSymbol (f name)
  | .notAFunction name => .notAFunction (f name)
  | .assignToFunction name => .assignToFunction (f name)
  | .functionAsValue name => .functionAsValue (f name)
  | .nothingData name => .nothingData (f name)
  | .unexpectedReturnValue name => .unexpectedReturnValue (f name)
  | .missingReturnValue name returns => .missingReturnValue (f name) returns

def Finding.rename : Finding → Finding
  | .semantic e => .semantic (e.rename f)
  | .typing e => .typing e
  | .conversion w => .conversion w
  | .call e => .call (e.rename f)

/-- The diagnostic with other names. -/
def Diagnostic.rename (d : Diagnostic) : Diagnostic := { d with finding := d.finding.rename f }

theorem Diagnostic.code_rename (d : Diagnostic) : (d.rename f).code = d.code := by
  obtain ⟨_, _, e | e | w | e⟩ := d
  · cases e <;> rfl
  · rfl
  · rfl
  · cases e <;> rfl

theorem Use.rename_mismatch (use : Use) (name : String) :
    (use.mismatch name).rename f = use.mismatch (f name) := by
  cases use <;> rfl

/-- Whether a call fits does not depend on the name of the function: the signature that its arguments
make has the same name. -/
theorem Signature.validate_rename (s : Signature) (args : List (Option Ty)) :
    (s.rename f).validate args = (s.validate args).mapError (CallError.rename f) := by
  unfold Signature.validate
  by_cases harity : s.arity = args.length
  · have harity' : (s.rename f).arity = args.length := harity
    simp only [harity, harity', ne_eq, not_true, if_false]
    cases knownTypes? args with
    | none => rfl
    | some types =>
      have hsame : s.rename f = { s.rename f with params := types } ↔ s = { s with params := types } := by
        cases s
        simp [Signature.rename]
      by_cases hfits : s = { s with params := types }
      · simp only [if_pos hfits, if_pos (hsame.mpr hfits)]
        rfl
      · simp only [if_neg hfits, if_neg (mt hsame.mp hfits)]
        rfl
  · have harity' : (s.rename f).arity ≠ args.length := harity
    simp only [harity, harity', ne_eq, not_false_eq_true, if_true]
    rfl

/-! ## Internal errors -/

/-- The same subject, with other names. -/
inductive Subject.Renames : Subject → Subject → Prop
  | program (file : String) : Renames (.program file) (.program file)
  | function (name : String) : Renames (.function name) (.function (f name))
  | scopeOf (name : String) : Renames (.scopeOf name) (.scopeOf (f name))
  | signatureOf (name : String) : Renames (.signatureOf name) (.signatureOf (f name))
  | declaration (d : Decl) : Renames (.declaration d.text) (.declaration (d.rename f).text)
  | block (position : Position) : Renames (.block position) (.block position)
  | assignment (position : Position) : Renames (.assignment position) (.assignment position)
  | expression (position : Position) : Renames (.expression position) (.expression position)
  | variable (position : Position) : Renames (.variable position) (.variable position)
  | call (position : Position) : Renames (.call position) (.call position)

/-- The same internal error, with other names. -/
inductive InternalError.Renames : InternalError → InternalError → Prop
  | scopeUnderflow : Renames .scopeUnderflow .scopeUnderflow
  | noActiveScope : Renames .noActiveScope .noActiveScope
  | reannotated {subject subject' : Subject} : subject.Renames f subject' →
      Renames (.reannotated subject) (.reannotated subject')
  | missingSignature (name : String) : Renames (.missingSignature name) (.missingSignature (f name))
  | nestedSignature (name unfinished : String) :
      Renames (.nestedSignature name unfinished) (.nestedSignature (f name) (f unfinished))
  | untypedLiteral (raw : String) (position : Position) :
      Renames (.untypedLiteral raw position) (.untypedLiteral raw position)
  | notATypeName (text : String) (position : Position) :
      Renames (.notATypeName text position) (.notATypeName text position)

/-! ## The renaming that changes nothing -/

def sameName (name : String) : String := name

@[simp]
theorem Identifier.rename_same (i : Identifier) : i.rename sameName = i := rfl

mutual

@[simp]
theorem Expr.rename_same : ∀ e : Expr, e.rename sameName = e
  | .literal .. | .var .. => rfl
  | .call _ _ callee args => by simp [Expr.rename, Expr.renameList_same args]
  | .binary _ _ _ lhs rhs => by simp [Expr.rename, lhs.rename_same, rhs.rename_same]
  | .unary _ _ _ operand | .cast _ _ operand | .grouped _ operand => by
    simp [Expr.rename, operand.rename_same]
  | .format _ _ args => by simp [Expr.rename, Expr.renameList_same args]

@[simp]
theorem Expr.renameList_same : ∀ es : List Expr, Expr.renameList sameName es = es
  | [] => rfl
  | e :: rest => by simp [Expr.renameList, e.rename_same, Expr.renameList_same rest]

end

@[simp]
theorem Expr.map_rename_same (e : Option Expr) : e.map (Expr.rename sameName) = e := by
  cases e <;> simp

@[simp]
theorem Decl.rename_same (d : Decl) : d.rename sameName = d := rfl

@[simp]
theorem DataDef.rename_same (d : DataDef) : d.rename sameName = d := by simp [DataDef.rename]

@[simp]
theorem Assignment.rename_same (a : Assignment) : a.rename sameName = a := by simp [Assignment.rename]

mutual

@[simp]
theorem Stmt.rename_same : ∀ s : Stmt, s.rename sameName = s
  | .data _ | .assign _ | .expr _ | .ret _ _ | .yield _ _ => by simp [Stmt.rename]
  | .branch conditional => by simp [Stmt.rename, conditional.rename_same]
  | .whileLoop _ _ body | .doLoop _ body _ | .block body => by simp [Stmt.rename, body.rename_same]
  | .brk _ | .cont _ | .inline _ _ => rfl

@[simp]
theorem Block.rename_same : ∀ b : Block, b.rename sameName = b
  | .mk _ _ body => by simp [Block.rename, Stmt.renameList_same body]

theorem Stmt.renameList_same : ∀ body : List Stmt, Stmt.renameList sameName body = body
  | [] => rfl
  | s :: rest => by simp [Stmt.renameList, s.rename_same, Stmt.renameList_same rest]

@[simp]
theorem Conditional.rename_same : ∀ c : Conditional, c.rename sameName = c
  | .mk _ _ body otherwise => by simp [Conditional.rename, body.rename_same, otherwise.rename_same]

@[simp]
theorem Else.rename_same : ∀ e : Else, e.rename sameName = e
  | .none => rfl
  | .elseIf next => by simp [Else.rename, next.rename_same]
  | .block body => by simp [Else.rename, body.rename_same]

end

@[simp]
theorem Function.rename_same (g : Function) : g.rename sameName = g := by
  simp [Function.rename, List.map_id'' Decl.rename_same]

@[simp]
theorem Function.map_rename_same (g : Option Function) : g.map (Function.rename sameName) = g := by
  cases g <;> simp

@[simp]
theorem Item.rename_same (item : Item) : item.rename sameName = item := by
  cases item <;> simp [Item.rename]

@[simp]
theorem Program.rename_same (p : Program) : p.rename sameName = p := by
  simp [Program.rename, List.map_id'' Item.rename_same]

@[simp]
theorem Event.rename_same (event : Event) : event.rename sameName = event := by
  cases event <;> simp [Event.rename]

@[simp]
theorem Signature.map_rename_same (s : Option Signature) :
    s.map (Signature.rename sameName) = s := by
  cases s <;> rfl

@[simp]
theorem Definition.rename_same (d : Definition) : d.rename sameName = d := by
  cases d <;> simp [Definition.rename]

@[simp]
theorem Symbol.rename_same (x : Symbol) : x.rename sameName = x := by
  simp [Symbol.rename]

@[simp]
theorem Diagnostic.rename_same (d : Diagnostic) : d.rename sameName = d := by
  obtain ⟨_, _, e | e | w | e⟩ := d
  · cases e <;> rfl
  · rfl
  · rfl
  · cases e <;> rfl

theorem InternalError.Renames.eq {e e' : InternalError} (h : e.Renames sameName e') : e = e' := by
  cases h with
  | reannotated hs => cases hs <;> rfl
  | _ => rfl

end Semant
