import Semant.Pass.Names

/-!
# What declarations say

A declaration introduces a name of one of two classes with a type: the type of data, or the type
that a function returns. A reference uses a name as one of the two. This file reads both off the
tree, without any table; a type name that names nothing is read as `nothing`, which the check would
refuse.
-/

set_option autoImplicit false

namespace Semant

/-- The type a token names in the place of a type. Tokens that name none are read as `nothing`. -/
def Token.named (token : Token) : Ty := token.type?.getD .nothing

namespace Definition

/-- The number of the declaring node. -/
def id : Definition → NodeId
  | .data decl => decl.id
  | .function f => f.id

/-- The identifier that is declared. -/
def identifier : Definition → Identifier
  | .data decl => decl.name
  | .function f => f.name

/-- The name that is declared. -/
def name (d : Definition) : String := d.identifier.name

/-- What the name stands for. -/
def cls : Definition → SymbolClass
  | .data _ => .data
  | .function _ => .function

/-- The token in the place of the type of data, or of the return type of a function. -/
def typeName : Definition → Token
  | .data decl => decl.type
  | .function f => f.returns

/-- The type of data, or the return type of a function. -/
def type (d : Definition) : Ty := d.typeName.named

end Definition

namespace Symbol

theorem cls_eq (symbol : Symbol) : symbol.cls = symbol.definition.cls := by
  unfold cls
  cases symbol.definition <;> rfl

theorem identifier_eq (symbol : Symbol) : symbol.identifier = symbol.definition.identifier := by
  unfold identifier
  cases symbol.definition <;> rfl

theorem name_eq (symbol : Symbol) : symbol.name = symbol.definition.name :=
  congrArg Identifier.name symbol.identifier_eq

theorem position_eq (symbol : Symbol) :
    symbol.position = symbol.definition.identifier.position :=
  congrArg Identifier.position symbol.identifier_eq

end Symbol

/-- The signature that a function's declaration spells out. -/
def Function.signature (f : Function) : Signature :=
  { returns := f.returns.named, name := f.name.name, params := f.params.map (·.type.named) }

/-- What a statement declares in the scope around it. -/
def Stmt.declares : Stmt → List Definition
  | .data d => [.data d.decl]
  | _ => []

/-- What an item declares in the scope of the program. -/
def Item.declares : Item → List Definition
  | .data d => [.data d.decl]
  | .function f => [.function f]
  | _ => []

/-- A name where it is used: the node that uses it, the name and the way it is used. -/
structure Reference where
  node : NodeId
  name : Identifier
  use : Use

namespace Event

/-- The declaration that a walk comes to with the event. -/
def declares? : Event → Option Definition
  | .enterDecl d | .enterParam _ d => some (.data d)
  | .enterFunction f => some (.function f)
  | _ => none

/-- The reference that a walk comes to with the event. -/
def refers? : Event → Option Reference
  | .enterAssign a => some ⟨a.id, a.target, .target⟩
  | .enterVariable e name => some ⟨e.nameNode, name, .value⟩
  | .enterCall e callee _ => some ⟨e.nameNode, callee, .callee⟩
  | _ => none

/-- The node of the declaration or reference that a walk comes to with the event. -/
def mentions? (event : Event) : Option NodeId :=
  (event.declares?.map Definition.id).or (event.refers?.map Reference.node)

theorem mentions?_of_refers {event : Event} {r : Reference} (h : event.refers? = some r) :
    event.mentions? = some r.node := by
  cases event with
  | enterAssign a | enterVariable e name | enterCall e callee args => cases h; rfl
  | _ => cases h

end Event

end Semant
