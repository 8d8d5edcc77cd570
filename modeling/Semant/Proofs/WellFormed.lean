import Semant.Pass.Check
import Semant.Proofs.Declarations

/-!
# When a program is well formed

The rules of the language, as judgments about a tree: no store, no events, nothing is run. They are
read in the order of the text. A declaration can be seen from itself on, up to the end of the scope
around it, so an initial value sees the data it belongs to and a body the function it belongs to.

    1. A name is not declared while the same name can be seen.
    2. Neither data nor parameters are of type `nothing`.
    3. A variable or the target of an assignment is data that can be seen, and what is called is a
       function that can be seen.
    4. Operators and conversions take operands of types that `Rules` accepts, and a call has
       arguments of exactly the types that the function declares.
    5. What is stored, as an initial value or by an assignment, fits by `Rules.assignment`.
    6. In a function that returns nothing, no value is returned; in any other, a value that fits.
       Outside functions any value may be returned, or none.

Conditions and yielded values only have to have a type.

A name is looked up by membership. That there is at most one declaration to find is not part of the
rules but follows from the first of them.
-/

set_option autoImplicit false

namespace Semant

/-- A place in a program: the types that literals were given, the declarations that can be seen
there, oldest first, and the type that the function around it returns. -/
structure Site where
  literals : Cells Ty
  visible : List Definition
  returns : Option Ty

namespace Site

/-- The place after some more declarations. -/
def declaring (site : Site) (ds : List Definition) : Site :=
  { site with visible := site.visible ++ ds }

/-- The place inside a function, before its parameters. -/
def inside (site : Site) (f : Function) : Site :=
  { site.declaring [.function f] with returns := some f.returns.named }

/-- No declaration of the name can be seen. -/
def Free (site : Site) (name : String) : Prop := ∀ d ∈ site.visible, d.name ≠ name

instance (site : Site) (name : String) : Decidable (site.Free name) :=
  inferInstanceAs (Decidable (∀ d ∈ site.visible, d.name ≠ name))

end Site

/-- A value of one type may be stored where another is declared. -/
def Fits (target value : Ty) : Prop := ∃ checked, Rules.assignment target value = .ok checked

mutual

/-- An expression has a type. -/
inductive HasType (site : Site) : Expr → Ty → Prop where
  | literal {id : NodeId} {token : Token} {given : Option Ty} {type : Ty} :
    given.or (site.literals.get id) = some type → HasType site (.literal id token given) type
  | var {id node : NodeId} {name : Identifier} {d : Decl} :
    .data d ∈ site.visible → d.name.name = name.name → HasType site (.var id node name) d.type.named
  | call {id node : NodeId} {callee : Identifier} {args : List Expr} {f : Function} :
    .function f ∈ site.visible → f.name.name = callee.name →
    HaveTypes site args (f.params.map (·.type.named)) →
    HasType site (.call id node callee args) f.returns.named
  | binary {id : NodeId} {op : BinaryOp} {token : Token} {lhs rhs : Expr} {l r : Ty}
      {checked : Checked} :
    HasType site lhs l → HasType site rhs r → Rules.binary op l r = .ok checked →
    HasType site (.binary id op token lhs rhs) checked.type
  | unary {id : NodeId} {op : UnaryOp} {token : Token} {operand : Expr} {type : Ty}
      {checked : Checked} :
    HasType site operand type → Rules.unary op type = .ok checked →
    HasType site (.unary id op token operand) checked.type
  | cast {id : NodeId} {target : Token} {operand : Expr} {type : Ty} {checked : Checked} :
    HasType site operand type → Rules.cast target.named type = .ok checked →
    HasType site (.cast id target operand) checked.type
  | grouped {id : NodeId} {inner : Expr} {type : Ty} :
    HasType site inner type → HasType site (.grouped id inner) type
  | format {id : NodeId} {token : Token} {args : List Expr} {types : List Ty} :
    HaveTypes site args types → HasType site (.format id token args) .string

/-- Expressions have types, one after the other. -/
inductive HaveTypes (site : Site) : List Expr → List Ty → Prop where
  | nil : HaveTypes site [] []
  | cons {e : Expr} {rest : List Expr} {type : Ty} {types : List Ty} :
    HasType site e type → HaveTypes site rest types → HaveTypes site (e :: rest) (type :: types)

end

/-- An expression that may be left out has some type. -/
def Typed (site : Site) (e : Option Expr) : Prop := ∀ x, e = some x → ∃ type, HasType site x type

/-- A value is returned, or none, where the function around asks for it. -/
def Returns (site : Site) (value : Option Expr) : Prop :=
  match site.returns, value with
  | none, value => Typed site value
  | some target, none => target = .nothing
  | some target, some e => ∃ type, HasType site e type ∧ Fits target type

/-- Data is declared under a free name and holds a value that fits. -/
def DataDef.WellFormed (d : DataDef) (site : Site) : Prop :=
  site.Free d.decl.name.name ∧ d.decl.type.named ≠ .nothing ∧
    ∀ init, d.init = some init →
      ∃ type, HasType (site.declaring [.data d.decl]) init type ∧ Fits d.decl.type.named type

mutual

def Stmt.WellFormed : Stmt → Site → Prop
  | .data d, site => d.WellFormed site
  | .assign a, site =>
    ∃ d type, .data d ∈ site.visible ∧ d.name.name = a.target.name ∧
      HasType site a.value type ∧ Fits d.type.named type
  | .expr value, site => ∃ type, HasType site value type
  | .branch conditional, site => conditional.WellFormed site
  | .whileLoop _ cond body, site => Typed site cond ∧ body.WellFormed site
  | .doLoop _ body cond, site => body.WellFormed site ∧ Typed site cond
  | .ret _ value, site => Returns site value
  | .yield _ value, site => Typed site value
  | .brk _, _ | .cont _, _ | .inline _ _, _ => True
  | .block body, site => body.WellFormed site

def Block.WellFormed : Block → Site → Prop
  | .mk _ _ body, site => Stmt.AllWellFormed body site

/-- Each statement is well formed where it stands, after those before it. -/
def Stmt.AllWellFormed : List Stmt → Site → Prop
  | [], _ => True
  | s :: rest, site => s.WellFormed site ∧ Stmt.AllWellFormed rest (site.declaring s.declares)

def Conditional.WellFormed : Conditional → Site → Prop
  | .mk _ cond body otherwise, site =>
    (∃ type, HasType site cond type) ∧ body.WellFormed site ∧ otherwise.WellFormed site

def Else.WellFormed : Else → Site → Prop
  | .none, _ => True
  | .elseIf next, site => next.WellFormed site
  | .block body, site => body.WellFormed site

end

/-- Parameters are declared one after the other under free names. -/
def Decl.AllWellFormed : List Decl → Site → Prop
  | [], _ => True
  | d :: rest, site =>
    site.Free d.name.name ∧ d.type.named ≠ .nothing ∧
      Decl.AllWellFormed rest (site.declaring [.data d])

/-- A function is declared under a free name, and its body sees the function and its parameters. -/
def Function.WellFormed (f : Function) (site : Site) : Prop :=
  site.Free f.name.name ∧ Decl.AllWellFormed f.params (site.inside f) ∧
    f.body.WellFormed ((site.inside f).declaring (f.params.map .data))

def Item.WellFormed : Item → Site → Prop
  | .imports _, _ => True
  | .data d, site => d.WellFormed site
  | .function f, site => f.WellFormed site
  | .start s, site => s.body.WellFormed site

def Item.AllWellFormed : List Item → Site → Prop
  | [], _ => True
  | item :: rest, site =>
    item.WellFormed site ∧ Item.AllWellFormed rest (site.declaring item.declares)

/-- **A program is well formed**, given the types of its literals. -/
def Program.WellFormed (p : Program) (literals : Cells Ty) : Prop :=
  Item.AllWellFormed p.items { literals, visible := [], returns := none }

end Semant
