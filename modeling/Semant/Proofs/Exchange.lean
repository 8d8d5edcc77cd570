import Mathlib.Data.List.Perm.Basic
import Semant.Proofs.Revision

/-!
# Exchanged operands

`Expr.exchange S` turns the two operands of every binary node in `S` around, on all levels at once.
The operator, its place and all numbers stay, so an expression has the same cells as before.

A walk over the changed tree meets the events of the old one, one by one changed (`Event.exchange`),
but in another order (`Program.events_exchange`). What matters here of an event is what is said
about it by an outline, and outlines of both walks are the same up to the trees inside of them
(`Outline.Exchanged`). Where an event is met with such outlines, it has the same effect
(`Exchanged.step`) and reports the same up to the wording (`Exchanged.reports`): only the message
about operands that do not go together names them from left to right, since the rules for operators
are symmetric (`Rules.binary_comm`).

That the order does not matter is shown in `Semant.Proofs.Commutation`.
-/

set_option autoImplicit false

namespace Semant

variable (S : NodeId → Bool)

/-! ## Trees -/

mutual

/-- The expression with the operands of the binary nodes in `S` turned around. -/
def Expr.exchange : Expr → Expr
  | .literal id token given => .literal id token given
  | .var id node name => .var id node name
  | .call id node callee args => .call id node callee (Expr.exchangeList args)
  | .binary id op token lhs rhs =>
    if S id then .binary id op token rhs.exchange lhs.exchange
    else .binary id op token lhs.exchange rhs.exchange
  | .unary id op token operand => .unary id op token operand.exchange
  | .cast id target operand => .cast id target operand.exchange
  | .grouped id inner => .grouped id inner.exchange
  | .format id token args => .format id token (Expr.exchangeList args)

def Expr.exchangeList : List Expr → List Expr
  | [] => []
  | e :: rest => e.exchange :: Expr.exchangeList rest

end

/-- The program with the operands of the binary nodes in `S` turned around. -/
def Program.exchange (p : Program) : Program := p.revise (Expr.exchange S)

theorem Expr.exchangeList_eq_map (es : List Expr) :
    Expr.exchangeList S es = es.map (Expr.exchange S) := by
  induction es with
  | nil => rfl
  | cons e rest ih => rw [Expr.exchangeList, List.map_cons, ih]

/-- The operator of a binary node stays where it is. -/
theorem Expr.exchange_binary (id : NodeId) (op : BinaryOp) (token : Token) (lhs rhs : Expr) :
    ∃ lhs' rhs', (Expr.binary id op token lhs rhs).exchange S = .binary id op token lhs' rhs' := by
  rw [Expr.exchange]
  split
  · exact ⟨_, _, rfl⟩
  · exact ⟨_, _, rfl⟩

@[simp]
theorem Expr.id_exchange (e : Expr) : (e.exchange S).id = e.id := by
  cases e with
  | binary id op token lhs rhs =>
    obtain ⟨lhs', rhs', h⟩ := Expr.exchange_binary S id op token lhs rhs
    rw [h]
    rfl
  | _ => rfl

@[simp]
theorem Expr.nameNode_exchange (e : Expr) : (e.exchange S).nameNode = e.nameNode := by
  cases e with
  | binary id op token lhs rhs =>
    obtain ⟨lhs', rhs', h⟩ := Expr.exchange_binary S id op token lhs rhs
    rw [h]
    rfl
  | _ => rfl

theorem Outline.typeOf_exchange (o : Outline) (e : Expr) : o.typeOf (e.exchange S) = o.typeOf e := by
  cases e with
  | binary id op token lhs rhs =>
    obtain ⟨lhs', rhs', h⟩ := Expr.exchange_binary S id op token lhs rhs
    rw [h]
    rfl
  | _ => rfl

/-! ## Events -/

/-- The event of the changed tree. -/
def Event.exchange : Event → Event
  | .exitBinary e op token lhs rhs =>
    if S e.id then .exitBinary (e.exchange S) op token (rhs.exchange S) (lhs.exchange S)
    else .exitBinary (e.exchange S) op token (lhs.exchange S) (rhs.exchange S)
  | event => event.revise (Expr.exchange S)

@[simp]
theorem Event.entered?_exchange (event : Event) :
    (event.exchange S).entered? = event.entered? := by
  cases event with
  | exitBinary e op token lhs rhs =>
    rw [exchange]
    split <;> rfl
  | enterExpr e => exact congrArg some (e.id_exchange S)
  | enterVariable e name => exact congrArg some (e.nameNode_exchange S)
  | enterCall e callee args => exact congrArg some (e.nameNode_exchange S)
  | enterBlock b => exact congrArg some (b.id_revise _)
  | _ => rfl

@[simp]
theorem Event.typeNames_exchange (event : Event) :
    (event.exchange S).typeNames = event.typeNames := by
  cases event with
  | exitBinary e op token lhs rhs =>
    rw [exchange]
    split <;> rfl
  | _ => rfl

@[simp]
theorem Event.untyped?_exchange (literals : Cells Ty) (event : Event) :
    (event.exchange S).untyped? literals = event.untyped? literals := by
  cases event with
  | exitBinary e op token lhs rhs =>
    rw [exchange]
    split <;> rfl
  | exitLiteral e token =>
    cases e with
    | binary id op token' lhs rhs =>
      obtain ⟨lhs', rhs', h⟩ := Expr.exchange_binary S id op token' lhs rhs
      simp only [exchange, revise, h, untyped?]
    | _ => rfl
  | _ => rfl

namespace Node

/-- Whether the node is one whose operands are exchanged. -/
def swaps : Node → Bool
  | expr (.binary id _ _ _ _) => S id
  | _ => false

theorem opening_exchange (n : Node) :
    (n.revise (Expr.exchange S)).opening = n.opening.map (Event.exchange S) := by
  cases n with
  | expr e =>
    cases e with
    | call id node callee args =>
      simp [revise, opening, Expr.opening, Event.exchange, Event.revise, Expr.exchange,
        Expr.exchangeList_eq_map]
    | binary id op token lhs rhs =>
      obtain ⟨lhs', rhs', h⟩ := Expr.exchange_binary S id op token lhs rhs
      simp [revise, opening, h, Expr.opening, Event.exchange, Event.revise]
    | _ => rfl
  | _ => rfl

theorem closing_exchange (n : Node) :
    (n.revise (Expr.exchange S)).closing = n.closing.map (Event.exchange S) := by
  cases n with
  | expr e =>
    cases e with
    | call id node callee args | format id token args =>
      simp [revise, closing, Expr.closing, Event.exchange, Event.revise, Expr.exchange,
        Expr.exchangeList_eq_map]
    | binary id op token lhs rhs =>
      by_cases h : S id = true <;>
        simp [revise, closing, Expr.closing, Event.exchange, Event.revise, Expr.exchange, Expr.id, h]
    | _ => rfl
  | _ => rfl

/-- The children of a node stay in order, except at a node whose operands are exchanged. -/
theorem children_exchange (n : Node) :
    (n.revise (Expr.exchange S)).children
      = (if n.swaps S then n.children.reverse else n.children).map (revise (Expr.exchange S)) := by
  cases n with
  | expr e =>
    cases e with
    | call id node callee args | format id token args =>
      simp [revise, children, Expr.exchange, Expr.parts, Expr.exchangeList_eq_map, swaps]
    | binary id op token lhs rhs =>
      by_cases h : S id = true <;> simp [revise, children, Expr.exchange, Expr.parts, swaps, h]
    | _ => rfl
  | _ => exact children_revise _ rfl

theorem children_exchange_perm (n : Node) :
    (n.revise (Expr.exchange S)).children.Perm (n.children.map (revise (Expr.exchange S))) := by
  rw [children_exchange]
  split
  · exact n.children.reverse_perm.map _
  · exact List.Perm.refl _

theorem events_exchange_of_children (n : Node)
    (h : ∀ c ∈ n.children,
      (c.revise (Expr.exchange S)).events.Perm (c.events.map (Event.exchange S))) :
    (n.revise (Expr.exchange S)).events.Perm (n.events.map (Event.exchange S)) := by
  have hinner : ((n.revise (Expr.exchange S)).children.flatMap Node.events).Perm
      ((n.children.flatMap Node.events).map (Event.exchange S)) := by
    refine ((n.children_exchange_perm S).flatMap_right Node.events).trans ?_
    rw [List.flatMap_map, List.map_flatMap]
    exact List.Perm.flatMap_left _ h
  rw [events_eq, n.events_eq, List.map_append, List.map_append, opening_exchange, closing_exchange]
  exact (hinner.append_right _).append_left _

end Node

/-- **A walk over the changed tree meets the same events, changed, in some order.** -/
theorem Program.events_exchange (p : Program) :
    (p.exchange S).events.Perm (p.events.map (Event.exchange S)) :=
  p.node_induction
    (P := fun n => (n.revise (Expr.exchange S)).events.Perm (n.events.map (Event.exchange S)))
    (Node.events_exchange_of_children S)

section Program

variable {S} {p : Program}

/-- What is read off events that were not changed in this respect is the same, in some order. -/
theorem Program.filterMap_exchange {β : Type} {f : Event → Option β}
    (hf : ∀ event : Event, f (event.exchange S) = f event) :
    ((p.exchange S).events.filterMap f).Perm (p.events.filterMap f) := by
  have hperm := (p.events_exchange S).filterMap f
  rwa [List.filterMap_map, show f ∘ Event.exchange S = f from funext hf] at hperm

theorem Program.nodup_exchange (hn : p.nodes.Nodup) : (p.exchange S).nodes.Nodup :=
  (Program.filterMap_exchange (Event.entered?_exchange S)).nodup_iff.mpr hn

theorem Program.mem_typeNames_exchange {token : Token} :
    token ∈ (p.exchange S).typeNames ↔ token ∈ p.typeNames := by
  unfold Program.typeNames
  rw [((p.events_exchange S).flatMap_right _).mem_iff, List.flatMap_map]
  simp only [Event.typeNames_exchange]

theorem Program.untyped?_exchange {literals : Cells Ty} :
    (p.exchange S).untyped? literals = none ↔ p.untyped? literals = none := by
  unfold Program.untyped?
  rw [List.findSome?_eq_none_iff, List.findSome?_eq_none_iff]
  simp only [(p.events_exchange S).mem_iff, List.forall_mem_map, Event.untyped?_exchange]

theorem Program.enterExpr_exchange {e : Expr} (h : .enterExpr e ∈ p.events) :
    .enterExpr (e.exchange S) ∈ (p.exchange S).events :=
  (p.events_exchange S).mem_iff.mpr (List.mem_map_of_mem h)

end Program

/-! ## Rules -/

/-- What can be told from a report without its wording. -/
def Diagnostic.key (d : Diagnostic) : Severity × Code × Position := (d.severity, d.code, d.position)

theorem Rules.promote_comm (op : BinaryOp) (a b : Ty) :
    (Rules.promote op a b).mapError TypeError.code
      = (Rules.promote op b a).mapError TypeError.code := by
  cases a <;> cases b <;> rfl

/-- **The rules for operators are symmetric**, except that the wording of an error may name the
operands. -/
theorem Rules.binary_comm (op : BinaryOp) (a b : Ty) :
    (Rules.binary op a b).mapError TypeError.code
      = (Rules.binary op b a).mapError TypeError.code := by
  unfold Rules.binary
  simp only [or_comm (a := a = .nothing), or_comm (a := a.isStruct = true), or_comm (a := a = .string)]
  split
  · rfl
  split
  · rfl
  split
  · rfl
  split
  · rfl
  split
  · rfl
  · exact Rules.promote_comm op a b

/-! ## Outlines -/

section Revision

variable (r : Expr → Expr)

def Definition.revise : Definition → Definition
  | .data decl => .data decl
  | .function f => .function (f.revise r)

@[simp]
theorem Definition.id_revise (d : Definition) : (d.revise r).id = d.id := by
  cases d <;> rfl

@[simp]
theorem Definition.identifier_revise (d : Definition) :
    (d.revise r).identifier = d.identifier := by
  cases d <;> rfl

@[simp]
theorem Definition.name_revise (d : Definition) : (d.revise r).name = d.name := by
  cases d <;> rfl

@[simp]
theorem Definition.cls_revise (d : Definition) : (d.revise r).cls = d.cls := by
  cases d <;> rfl

@[simp]
theorem Definition.type_revise (d : Definition) : (d.revise r).type = d.type := by
  cases d <;> rfl

def Entry.revise (x : Entry) : Entry := { x with definition := x.definition.revise r }

def Frame.revise (x : Frame) : Frame := { x with entries := x.entries.map (Entry.revise r) }

theorem visible_revise (frames : List Frame) :
    visible (frames.map (Frame.revise r)) = (visible frames).map (Entry.revise r) := by
  induction frames with
  | nil => rfl
  | cons frame outer ih => simp only [List.map_cons, visible, ih, List.map_append, Frame.revise]

theorem lookup_revise (entries : List Entry) (name : String) :
    lookup (entries.map (Entry.revise r)) name = (lookup entries name).map (Entry.revise r) := by
  simp only [lookup, List.find?_map, Function.comp_def, Entry.revise, Definition.name_revise]

theorem resolution_revise (entries : List Entry) (name : Identifier) (use : Use) :
    resolution (entries.map (Entry.revise r)) name use
      = (resolution entries name use).map (Entry.revise r) := by
  unfold resolution
  rw [lookup_revise]
  cases lookup entries name.name with
  | none => rfl
  | some entry =>
    simp only [Option.map_some, Entry.revise, Definition.cls_revise]
    split <;> rfl

end Revision

namespace Outline

/-- The second outline is the first one, with operands exchanged in the functions it knows. -/
structure Exchanged (o o' : Outline) : Prop where
  literals : o'.literals = o.literals
  frames : o'.frames = o.frames.map (Frame.revise (Expr.exchange S))
  regions : o'.regions = o.regions
  declared : o'.declared = o.declared.map (Prod.map id (Definition.revise (Expr.exchange S)))
  header : o'.header = o.header
  function : o'.function = o.function.map (Function.revise (Expr.exchange S))
  symbols : ∀ n, o'.symbols.get n
    = (o.symbols.get n).map (Option.map (Entry.revise (Expr.exchange S)))
  types : o'.types = o.types
  signatures : o'.signatures = o.signatures

theorem Exchanged.start (literals : Cells Ty) :
    Exchanged S (Outline.start literals) (Outline.start literals) where
  literals := rfl
  frames := rfl
  regions := rfl
  declared := rfl
  header := rfl
  function := rfl
  symbols := by simp [Outline.start]
  types := rfl
  signatures := rfl

namespace Exchanged

variable {S} {o o' : Outline} (h : Exchanged S o o')

include h

theorem typeOf (e : Expr) : o'.typeOf (e.exchange S) = o.typeOf e := by
  rw [typeOf_exchange]
  cases e with
  | literal id token given => simp only [Outline.typeOf, h.literals]
  | _ => simp only [Outline.typeOf, h.types]

theorem scope : o'.scope = o.scope.map (Entry.revise (Expr.exchange S)) := by
  rw [Outline.scope, h.frames, visible_revise, Outline.scope]

theorem symbolOf (n : NodeId) :
    o'.symbolOf n = (o.symbolOf n).map (Entry.revise (Expr.exchange S)) := by
  rw [Outline.symbolOf, h.symbols, Outline.symbolOf]
  cases o.symbols.get n <;> rfl

theorem lookup (name : String) :
    Semant.lookup o'.scope name
      = (Semant.lookup o.scope name).map (Entry.revise (Expr.exchange S)) := by
  rw [h.scope, lookup_revise]

theorem resolution (name : Identifier) (use : Use) :
    Semant.resolution o'.scope name use
      = (Semant.resolution o.scope name use).map (Entry.revise (Expr.exchange S)) := by
  rw [h.scope, resolution_revise]

/-! ### What an event reports -/

theorem duplicate (d : Definition) :
    o'.duplicate (d.revise (Expr.exchange S)) = o.duplicate d := by
  unfold Outline.duplicate
  rw [Definition.name_revise, h.lookup]
  cases Semant.lookup o.scope d.name <;> simp [Entry.revise]

theorem unresolved (name : Identifier) (use : Use) :
    o'.unresolved name use = o.unresolved name use := by
  unfold Outline.unresolved
  rw [h.resolution]
  cases Semant.resolution o.scope name use <;> rfl

theorem misfit (e : Expr) (callee : Identifier) (args : List Expr) :
    o'.misfit (e.exchange S) callee (args.map (Expr.exchange S)) = o.misfit e callee args := by
  have hargs : (args.map (Expr.exchange S)).map o'.typeOf = args.map o.typeOf := by
    simp [h.typeOf]
  unfold Outline.misfit
  rw [Expr.nameNode_exchange, h.symbolOf, hargs]
  cases o.symbolOf e.nameNode with
  | none => rfl
  | some entry =>
    obtain ⟨place, d⟩ := entry
    cases d <;> rfl

theorem misreturn (keyword : Token) (value : Option Expr) :
    o'.misreturn keyword (value.map (Expr.exchange S)) = o.misreturn keyword value := by
  unfold Outline.misreturn
  rw [h.function]
  cases o.function <;> cases value <;> rfl

theorem remarks (event : Event) : o'.remarks (event.exchange S) = o.remarks event := by
  cases event with
  | enterDecl d | enterParam f d => exact congrArg (valueless (.data d) ++ ·) (h.duplicate (.data d))
  | enterFunction f => exact h.duplicate (.function f)
  | enterAssign a => exact h.unresolved a.target .target
  | enterVariable e name => exact h.unresolved name .value
  | enterCall e callee args => exact h.unresolved callee .callee
  | exitCall e callee args => exact h.misfit e callee args
  | exitReturn keyword value => exact h.misreturn keyword value
  | exitBinary e op token lhs rhs =>
    rw [Event.exchange]
    split <;> rfl
  | _ => rfl

end Exchanged

/-- A question of which only the code of an error is known. -/
def coded (question : Position × Except TypeError Checked) : Position × Except Code Checked :=
  (question.1, question.2.mapError TypeError.code)

theorem Exchanged.question {o o' : Outline} (h : Exchanged S o o') (event : Event) :
    (o'.question (event.exchange S)).map coded = (o.question event).map coded := by
  cases event with
  | exitBinary e op token lhs rhs =>
    rw [Event.exchange]
    split
    · simp only [Outline.question, h.typeOf]
      -- both types are known or nothing is asked; the rule is symmetric up to the wording of its
      -- error
      cases o.typeOf lhs <;> cases o.typeOf rhs <;> simp [coded, Rules.binary_comm op]
    · simp only [Outline.question, h.typeOf]
  | exitUnary e op token operand => simp only [Event.exchange, Event.revise, Outline.question, h.typeOf]
  | exitCast e target operand => simp only [Event.exchange, Event.revise, Outline.question, h.typeOf]
  | exitData d =>
    have hinit : (d.init.map (Expr.exchange S)).bind o'.typeOf = d.init.bind o.typeOf := by
      cases d.init with
      | none => rfl
      | some init => exact h.typeOf init
    simp only [Event.exchange, Event.revise, Outline.question, DataDef.revise, hinit]
  | exitAssign a =>
    simp only [Event.exchange, Event.revise, Outline.question, Assignment.revise, h.typeOf, h.symbolOf]
    cases o.symbolOf a.id with
    | none => rfl
    | some entry => simp [Entry.revise]
  | exitReturn keyword value =>
    have hvalue : (value.map (Expr.exchange S)).bind o'.typeOf = value.bind o.typeOf := by
      cases value with
      | none => rfl
      | some value => exact h.typeOf value
    simp only [Event.exchange, Event.revise, Outline.question, h.function, hvalue]
    cases o.function <;> rfl
  | _ => rfl

/-- The type of an operation does not depend on the wording of errors. -/
theorem answer_of_coded {o o' : Outline} {event event' : Event}
    (h : (o'.question event').map coded = (o.question event).map coded) :
    o'.answer event' = o.answer event := by
  have hcoded : ∀ (o : Outline) (event : Event), o.answer event
      = ((o.question event).map coded).bind fun x => x.2.toOption.map Checked.type := by
    intro o event
    unfold answer
    cases o.question event with
    | none => rfl
    | some question =>
      obtain ⟨position, checked⟩ := question
      cases checked <;> rfl
  rw [hcoded, hcoded, h]

/-- Nor do severity, code and place of what the type rules report. -/
theorem keys_of_coded {q q' : Option (Position × Except TypeError Checked)}
    (h : q'.map coded = q.map coded) :
    (q'.elim [] fun (position, checked) => ruling position checked).map Diagnostic.key
      = (q.elim [] fun (position, checked) => ruling position checked).map Diagnostic.key := by
  cases q with
  | none =>
    cases q' with
    | none => rfl
    | some question' => cases h
  | some question =>
    cases q' with
    | none => cases h
    | some question' =>
      obtain ⟨position, checked⟩ := question
      obtain ⟨position', checked'⟩ := question'
      obtain ⟨rfl, hcode⟩ := Prod.mk.inj (Option.some.inj h)
      cases checked with
      | ok x =>
        cases checked' with
        | ok x' =>
          cases hcode
          rfl
        | error e' => cases hcode
      | error e =>
        cases checked' with
        | ok x' => cases hcode
        | error e' =>
          have he : e'.code = e.code := Except.error.inj hcode
          simp [ruling, Diagnostic.key, Diagnostic.code, Finding.code, he]

namespace Exchanged

variable {S} {o o' : Outline} (h : Exchanged S o o')

include h

/-- **An event of the changed tree reports the same**, up to the wording. -/
theorem reports (event : Event) :
    (o'.reports (event.exchange S)).map Diagnostic.key = (o.reports event).map Diagnostic.key := by
  rw [Outline.reports, Outline.reports, List.map_append, List.map_append, h.remarks,
    keys_of_coded (h.question S event)]

theorem answer (event : Event) : o'.answer (event.exchange S) = o.answer event :=
  answer_of_coded (h.question S event)

/-! ### What an event changes -/

theorem opened {node node' : NodeId} (hnode : node' = node) :
    Exchanged S (o.opened node) (o'.opened node') where
  literals := h.literals
  frames := by simp [Outline.opened, h.frames, Frame.revise, hnode]
  regions := by
    simp only [Outline.opened, h.regions, h.frames, List.head?_map, Option.map_map, hnode]
    rfl
  declared := h.declared
  header := h.header
  function := h.function
  symbols := h.symbols
  types := h.types
  signatures := h.signatures

theorem closed : Exchanged S o.closed o'.closed where
  literals := h.literals
  frames := by simp [Outline.closed, h.frames]
  regions := h.regions
  declared := h.declared
  header := h.header
  function := h.function
  symbols := h.symbols
  types := h.types
  signatures := h.signatures

theorem entryOf (d : Definition) :
    o'.entryOf (d.revise (Expr.exchange S)) = (o.entryOf d).revise (Expr.exchange S) := by
  simp [Outline.entryOf, Entry.revise, h.declared]

theorem put (node : NodeId) (stands : Option Entry) (n : NodeId) :
    (o'.symbols.put node (stands.map (Entry.revise (Expr.exchange S)))).get n
      = ((o.symbols.put node stands).get n).map (Option.map (Entry.revise (Expr.exchange S))) := by
  rw [Cells.get_put, Cells.get_put, h.symbols]
  split <;> rfl

theorem declare (d : Definition) :
    Exchanged S (o.declare d) (o'.declare (d.revise (Expr.exchange S))) := by
  have hstands : (if (Semant.lookup o'.scope (d.revise (Expr.exchange S)).name).isSome then none
        else some (o'.entryOf (d.revise (Expr.exchange S))))
      = (if (Semant.lookup o.scope d.name).isSome then none else some (o.entryOf d)).map
          (Entry.revise (Expr.exchange S)) := by
    rw [Definition.name_revise, h.lookup, Option.isSome_map, h.entryOf]
    split <;> rfl
  unfold Outline.declare Outline.write
  rw [hstands, h.frames]
  cases o.frames with
  | nil => exact h
  | cons frame outer =>
    refine
      { literals := h.literals
        frames := ?_
        regions := h.regions
        declared := ?_
        header := h.header
        function := h.function
        symbols := ?_
        types := h.types
        signatures := h.signatures }
    · simp [Frame.revise, h.entryOf]
    · simp [h.declared, Frame.revise]
    · intro n
      simp only [List.map_cons, Definition.id_revise]
      exact h.put d.id _ n

theorem refer {node node' : NodeId} (hnode : node' = node) (name : Identifier) (use : Use) :
    Exchanged S (o.refer node name use) (o'.refer node' name use) :=
  { h with
    symbols := by
      intro n
      have hfound : (Semant.resolution o'.scope name use).toOption
          = (Semant.resolution o.scope name use).toOption.map (Entry.revise (Expr.exchange S)) := by
        rw [h.resolution]
        cases Semant.resolution o.scope name use <;> rfl
      simp only [Outline.refer, hfound, hnode]
      exact h.put node _ n }

theorem settle (e : Expr) {type type' : Option Ty} (htype : type' = type) :
    Exchanged S (o.settle e type) (o'.settle (e.exchange S) type') :=
  { h with types := by simp [Outline.settle, h.types, htype] }

theorem symbolType (e : Expr) :
    ((o'.symbolOf (e.exchange S).nameNode).map fun entry => entry.definition.type)
      = (o.symbolOf e.nameNode).map fun entry => entry.definition.type := by
  rw [Expr.nameNode_exchange, h.symbolOf]
  cases o.symbolOf e.nameNode <;> simp [Entry.revise]

/-- **An event of the changed tree has the same effect.** -/
theorem step (event : Event) : Exchanged S (o.step event) (o'.step (event.exchange S)) := by
  cases event with
  | enterProgram p => exact h.opened rfl
  | enterBlock b => exact h.opened (b.id_revise _)
  | exitProgram p => exact h.closed
  | exitBlock b => exact h.closed
  | enterStart s => exact { h with function := rfl }
  | enterDecl d => exact h.declare (.data d)
  | enterFunction f =>
    exact { (h.declare (.function f)).opened rfl with
      header := rfl
      function := rfl }
  | exitFunction f => exact { h.closed with function := rfl }
  | enterParam f d =>
    exact { h.declare (.data d) with
      header := by simp only [Event.exchange, Event.revise, Outline.step, h.header] }
  | exitParams f =>
    exact { h with
      header := rfl
      signatures := congrArg (fun cells => cells.put f.id f.signature) h.signatures }
  | enterAssign a => exact h.refer rfl a.target .target
  | enterVariable e name => exact h.refer (e.nameNode_exchange S) name .value
  | enterCall e callee args => exact h.refer (e.nameNode_exchange S) callee .callee
  | exitVariable e name => exact h.settle e (h.symbolType e)
  | exitCall e callee args => exact h.settle e (h.symbolType e)
  | exitBinary e op token lhs rhs =>
    -- whether this very node is one of the exchanged ones does not matter any more: its answer is
    -- the same
    have hanswer := h.answer (.exitBinary e op token lhs rhs)
    rw [Event.exchange] at hanswer ⊢
    split at hanswer
    · rw [if_pos ‹_›]
      exact h.settle e hanswer
    · rw [if_neg ‹_›]
      exact h.settle e hanswer
  | exitUnary e op token operand => exact h.settle e (h.answer (.exitUnary e op token operand))
  | exitCast e target operand => exact h.settle e (h.answer (.exitCast e target operand))
  | exitGrouped e inner => exact h.settle e (h.typeOf inner)
  | exitFormat e token args => exact h.settle e rfl
  | _ => exact h

end Exchanged

end Outline

end Semant
