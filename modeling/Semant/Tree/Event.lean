import Semant.Tree.Basic

/-!
# Walking a tree

Every pass over a program visits its nodes in the same order: depth first, left to right, outer
nodes before inner ones. What a visitor is told is an `Event`, one for each time a node is entered
or left, and a visitor is a function of events in a monad of its choice. Raising an error in that
monad ends the walk at once.

`Program.events` is the same order written down as a list. It needs no monad and is what statements
about the order of a walk talk about. Passes use the walk, which does not build the list.
-/

set_option autoImplicit false

namespace Semant

/-- One step of a walk: a node is entered or left. An expression is entered before and left after
the steps of its own form, so a visitor may treat all expressions alike or each in its own way. -/
inductive Event where
  | enterProgram (p : Program)
  | exitProgram (p : Program)
  | enterImport (i : Import)
  | enterStart (s : Start)
  | exitStart (s : Start)
  | enterData (d : DataDef)
  | exitData (d : DataDef)
  | enterDecl (d : Decl)
  | enterFunction (f : Function)
  | exitFunction (f : Function)
  | enterParam (f : Function) (d : Decl)
  /-- All parameters are known and the body is about to be entered. -/
  | exitParams (f : Function)
  | enterBlock (b : Block)
  | exitBlock (b : Block)
  | enterAssign (a : Assignment)
  | exitAssign (a : Assignment)
  | enterIf (c : Conditional)
  | exitIf (c : Conditional)
  | enterWhile (keyword : Token) (cond : Option Expr) (body : Block)
  | exitWhile (keyword : Token) (cond : Option Expr) (body : Block)
  | enterDo (keyword : Token) (body : Block) (cond : Option Expr)
  | exitDo (keyword : Token) (body : Block) (cond : Option Expr)
  | exitReturn (keyword : Token) (value : Option Expr)
  | exitYield (keyword : Token) (value : Option Expr)
  | enterBreak (keyword : Token)
  | enterContinue (keyword : Token)
  | enterInline (keyword : Token) (text : String)
  | enterExpr (e : Expr)
  | exitExpr (e : Expr)
  | exitLiteral (e : Expr) (token : Token)
  | enterVariable (e : Expr) (name : Identifier)
  | exitVariable (e : Expr) (name : Identifier)
  | enterCall (e : Expr) (callee : Identifier) (args : List Expr)
  | exitCall (e : Expr) (callee : Identifier) (args : List Expr)
  | exitBinary (e : Expr) (op : BinaryOp) (token : Token) (lhs rhs : Expr)
  | exitUnary (e : Expr) (op : UnaryOp) (token : Token) (operand : Expr)
  | exitCast (e : Expr) (target : Token) (operand : Expr)
  | exitGrouped (e : Expr) (inner : Expr)
  | exitFormat (e : Expr) (token : Token) (args : List Expr)

/-! ## The walk -/

section Walk

variable {m : Type → Type} [Monad m] (visit : Event → m Unit)

mutual

def Expr.walk : Expr → m Unit
  | .literal id token given => do
    visit (.enterExpr (.literal id token given))
    visit (.exitLiteral (.literal id token given) token)
    visit (.exitExpr (.literal id token given))
  | .var id node name => do
    visit (.enterExpr (.var id node name))
    visit (.enterVariable (.var id node name) name)
    visit (.exitVariable (.var id node name) name)
    visit (.exitExpr (.var id node name))
  | .call id node callee args => do
    visit (.enterExpr (.call id node callee args))
    visit (.enterCall (.call id node callee args) callee args)
    Expr.walkList args
    visit (.exitCall (.call id node callee args) callee args)
    visit (.exitExpr (.call id node callee args))
  | .binary id op token lhs rhs => do
    visit (.enterExpr (.binary id op token lhs rhs))
    Expr.walk lhs
    Expr.walk rhs
    visit (.exitBinary (.binary id op token lhs rhs) op token lhs rhs)
    visit (.exitExpr (.binary id op token lhs rhs))
  | .unary id op token operand => do
    visit (.enterExpr (.unary id op token operand))
    Expr.walk operand
    visit (.exitUnary (.unary id op token operand) op token operand)
    visit (.exitExpr (.unary id op token operand))
  | .cast id target operand => do
    visit (.enterExpr (.cast id target operand))
    Expr.walk operand
    visit (.exitCast (.cast id target operand) target operand)
    visit (.exitExpr (.cast id target operand))
  | .grouped id inner => do
    visit (.enterExpr (.grouped id inner))
    Expr.walk inner
    visit (.exitGrouped (.grouped id inner) inner)
    visit (.exitExpr (.grouped id inner))
  | .format id token args => do
    visit (.enterExpr (.format id token args))
    Expr.walkList args
    visit (.exitFormat (.format id token args) token args)
    visit (.exitExpr (.format id token args))

def Expr.walkList : List Expr → m Unit
  | [] => pure ()
  | e :: rest => do
    Expr.walk e
    Expr.walkList rest

end

def Expr.walkOption : Option Expr → m Unit
  | none => pure ()
  | some e => e.walk visit

/-- The declaration comes before the initial value, so the name is known in its own initial value.
-/
def DataDef.walk (d : DataDef) : m Unit := do
  visit (.enterData d)
  visit (.enterDecl d.decl)
  Expr.walkOption visit d.init
  visit (.exitData d)

mutual

def Stmt.walk : Stmt → m Unit
  | .data definition => definition.walk visit
  | .assign a => do
    visit (.enterAssign a)
    a.value.walk visit
    visit (.exitAssign a)
  | .expr value => value.walk visit
  | .branch conditional => Conditional.walk conditional
  | .whileLoop keyword cond body => do
    visit (.enterWhile keyword cond body)
    Expr.walkOption visit cond
    Block.walk body
    visit (.exitWhile keyword cond body)
  | .doLoop keyword body cond => do
    visit (.enterDo keyword body cond)
    Block.walk body
    Expr.walkOption visit cond
    visit (.exitDo keyword body cond)
  | .ret keyword value => do
    Expr.walkOption visit value
    visit (.exitReturn keyword value)
  | .yield keyword value => do
    Expr.walkOption visit value
    visit (.exitYield keyword value)
  | .brk keyword => visit (.enterBreak keyword)
  | .cont keyword => visit (.enterContinue keyword)
  | .inline keyword text => visit (.enterInline keyword text)
  | .block body => Block.walk body

def Block.walk : Block → m Unit
  | .mk id brace body => do
    visit (.enterBlock (.mk id brace body))
    Stmt.walkList body
    visit (.exitBlock (.mk id brace body))

def Stmt.walkList : List Stmt → m Unit
  | [] => pure ()
  | s :: rest => do
    Stmt.walk s
    Stmt.walkList rest

def Conditional.walk : Conditional → m Unit
  | .mk keyword cond body otherwise => do
    visit (.enterIf (.mk keyword cond body otherwise))
    cond.walk visit
    Block.walk body
    Else.walk otherwise
    visit (.exitIf (.mk keyword cond body otherwise))

def Else.walk : Else → m Unit
  | .none => pure ()
  | .elseIf next => Conditional.walk next
  | .block body => Block.walk body

end

def Function.walkParams (f : Function) : List Decl → m Unit
  | [] => pure ()
  | d :: rest => do
    visit (.enterParam f d)
    f.walkParams rest

def Function.walk (f : Function) : m Unit := do
  visit (.enterFunction f)
  f.walkParams visit f.params
  visit (.exitParams f)
  f.body.walk visit
  visit (.exitFunction f)

def Item.walk : Item → m Unit
  | .imports i => visit (.enterImport i)
  | .data definition => definition.walk visit
  | .function f => f.walk visit
  | .start s => do
    visit (.enterStart s)
    s.body.walk visit
    visit (.exitStart s)

def Item.walkList : List Item → m Unit
  | [] => pure ()
  | item :: rest => do
    item.walk visit
    Item.walkList rest

def Program.walk (p : Program) : m Unit := do
  visit (.enterProgram p)
  Item.walkList visit p.items
  visit (.exitProgram p)

end Walk

/-! ## The events as a list -/

mutual

/-- Written by the same recursion as the walk, case by case, so that each proof about the list goes
through the tree as the walk does. -/
def Expr.events : Expr → List Event
  | .literal id token given =>
    [.enterExpr (.literal id token given), .exitLiteral (.literal id token given) token,
      .exitExpr (.literal id token given)]
  | .var id node name =>
    [.enterExpr (.var id node name), .enterVariable (.var id node name) name,
      .exitVariable (.var id node name) name, .exitExpr (.var id node name)]
  | .call id node callee args =>
    [.enterExpr (.call id node callee args), .enterCall (.call id node callee args) callee args]
      ++ Expr.eventsOfList args
      ++ [.exitCall (.call id node callee args) callee args, .exitExpr (.call id node callee args)]
  | .binary id op token lhs rhs =>
    .enterExpr (.binary id op token lhs rhs) :: (lhs.events ++ rhs.events
      ++ [.exitBinary (.binary id op token lhs rhs) op token lhs rhs,
        .exitExpr (.binary id op token lhs rhs)])
  | .unary id op token operand =>
    .enterExpr (.unary id op token operand) :: (operand.events
      ++ [.exitUnary (.unary id op token operand) op token operand,
        .exitExpr (.unary id op token operand)])
  | .cast id target operand =>
    .enterExpr (.cast id target operand) :: (operand.events
      ++ [.exitCast (.cast id target operand) target operand,
        .exitExpr (.cast id target operand)])
  | .grouped id inner =>
    .enterExpr (.grouped id inner) :: (inner.events
      ++ [.exitGrouped (.grouped id inner) inner, .exitExpr (.grouped id inner)])
  | .format id token args =>
    .enterExpr (.format id token args) :: (Expr.eventsOfList args
      ++ [.exitFormat (.format id token args) token args, .exitExpr (.format id token args)])

def Expr.eventsOfList : List Expr → List Event
  | [] => []
  | e :: rest => e.events ++ Expr.eventsOfList rest

end

def Expr.eventsOfOption : Option Expr → List Event
  | none => []
  | some e => e.events

def DataDef.events (d : DataDef) : List Event :=
  [.enterData d, .enterDecl d.decl] ++ Expr.eventsOfOption d.init ++ [.exitData d]

mutual

def Stmt.events : Stmt → List Event
  | .data definition => definition.events
  | .assign a => .enterAssign a :: (a.value.events ++ [.exitAssign a])
  | .expr value => value.events
  | .branch conditional => conditional.events
  | .whileLoop keyword cond body =>
    .enterWhile keyword cond body :: (Expr.eventsOfOption cond ++ body.events
      ++ [.exitWhile keyword cond body])
  | .doLoop keyword body cond =>
    .enterDo keyword body cond :: (body.events ++ Expr.eventsOfOption cond
      ++ [.exitDo keyword body cond])
  | .ret keyword value => Expr.eventsOfOption value ++ [.exitReturn keyword value]
  | .yield keyword value => Expr.eventsOfOption value ++ [.exitYield keyword value]
  | .brk keyword => [.enterBreak keyword]
  | .cont keyword => [.enterContinue keyword]
  | .inline keyword text => [.enterInline keyword text]
  | .block body => body.events

def Block.events : Block → List Event
  | .mk id brace body =>
    .enterBlock (.mk id brace body) :: (Stmt.eventsOfList body
      ++ [.exitBlock (.mk id brace body)])

def Stmt.eventsOfList : List Stmt → List Event
  | [] => []
  | s :: rest => s.events ++ Stmt.eventsOfList rest

def Conditional.events : Conditional → List Event
  | .mk keyword cond body otherwise =>
    .enterIf (.mk keyword cond body otherwise) :: (cond.events ++ body.events ++ otherwise.events
      ++ [.exitIf (.mk keyword cond body otherwise)])

def Else.events : Else → List Event
  | .none => []
  | .elseIf next => next.events
  | .block body => body.events

end

def Function.events (f : Function) : List Event :=
  .enterFunction f :: (f.params.map (Event.enterParam f) ++ .exitParams f :: (f.body.events
    ++ [.exitFunction f]))

def Item.events : Item → List Event
  | .imports i => [.enterImport i]
  | .data definition => definition.events
  | .function f => f.events
  | .start s => .enterStart s :: (s.body.events ++ [.exitStart s])

def Program.events (p : Program) : List Event :=
  .enterProgram p :: (p.items.flatMap Item.events ++ [.exitProgram p])

end Semant
