import Semant.Proofs.Walk
import Semant.Proofs.Occurrences

/-!
# What a walk tells a visitor

`Program.walk_eq_forM` says that a walk is a run over `Program.events`. This file says what that
list is, without the walk: a program is a tree of `Node`s, each with its children in source order,
the events of the way in and the events of the way out, and the list holds every event of every
occurrence of a node exactly once. What stands between the events of the way in and those of the
way out are the events of the children, one child after the other.

An occurrence is a path from the root, so a node that a front end uses in two places occurs twice
and is visited twice. `Call` is an event of an occurrence, and `Call.Precedes` the order of calls.
It compares paths only and does not mention the list.

What a visitor sees of the list is the subject of the last part. A visitor has a state of its own
and may fail at any event. It is called with the events of the list one after the other, in the
state that its last call left behind, until one call fails or the list is over.
-/

set_option autoImplicit false

namespace Semant

/-! ## Nodes -/

/-- A part of a program that a visitor is told about. -/
inductive Node where
  | program (p : Program)
  | imports (i : Import)
  | start (s : Start)
  | data (d : DataDef)
  | decl (d : Decl)
  | function (f : Function)
  /-- The list of the parameters, which a visitor only leaves. -/
  | params (f : Function)
  | param (f : Function) (d : Decl)
  | block (b : Block)
  | assign (a : Assignment)
  | branch (c : Conditional)
  | whileLoop (keyword : Token) (cond : Option Expr) (body : Block)
  | doLoop (keyword : Token) (body : Block) (cond : Option Expr)
  | ret (keyword : Token) (value : Option Expr)
  | yield (keyword : Token) (value : Option Expr)
  | brk (keyword : Token)
  | cont (keyword : Token)
  | inline (keyword : Token) (text : String)
  | expr (e : Expr)

/-- The expressions directly inside an expression, from left to right. -/
def Expr.parts : Expr → List Expr
  | .literal .. | .var .. => []
  | .call _ _ _ args | .format _ _ args => args
  | .binary _ _ _ lhs rhs => [lhs, rhs]
  | .unary _ _ _ operand | .cast _ _ operand | .grouped _ operand => [operand]

/-- The node that a statement is. Data, expressions and blocks are the same node everywhere. -/
def Stmt.node : Stmt → Node
  | .data definition => .data definition
  | .assign a => .assign a
  | .expr value => .expr value
  | .branch conditional => .branch conditional
  | .whileLoop keyword cond body => .whileLoop keyword cond body
  | .doLoop keyword body cond => .doLoop keyword body cond
  | .ret keyword value => .ret keyword value
  | .yield keyword value => .yield keyword value
  | .brk keyword => .brk keyword
  | .cont keyword => .cont keyword
  | .inline keyword text => .inline keyword text
  | .block body => .block body

/-- The node that a top-level item is. -/
def Item.node : Item → Node
  | .imports i => .imports i
  | .data definition => .data definition
  | .function f => .function f
  | .start s => .start s

/-- The node that follows the block of an `if`, if there is one. -/
def Else.nodes : Else → List Node
  | .none => []
  | .elseIf next => [.branch next]
  | .block body => [.block body]

namespace Node

/-- The nodes directly inside a node, in source order. -/
def children : Node → List Node
  | program p => p.items.map Item.node
  | start s => [block s.body]
  | data d => decl d.decl :: d.init.toList.map expr
  | function f => [params f, block f.body]
  | params f => f.params.map (param f)
  | block b => b.body.map Stmt.node
  | assign a => [expr a.value]
  | branch (.mk _ cond body otherwise) => expr cond :: block body :: otherwise.nodes
  | whileLoop _ cond body => cond.toList.map expr ++ [block body]
  | doLoop _ body cond => block body :: cond.toList.map expr
  | ret _ value | yield _ value => value.toList.map expr
  | expr e => e.parts.map expr
  | imports _ | decl _ | param _ _ | brk _ | cont _ | inline _ _ => []

/-- What a visitor is told of a node before its children. -/
def opening : Node → List Event
  | program p => [.enterProgram p]
  | imports i => [.enterImport i]
  | start s => [.enterStart s]
  | data d => [.enterData d]
  | decl d => [.enterDecl d]
  | function f => [.enterFunction f]
  | param f d => [.enterParam f d]
  | block b => [.enterBlock b]
  | assign a => [.enterAssign a]
  | branch c => [.enterIf c]
  | whileLoop keyword cond body => [.enterWhile keyword cond body]
  | doLoop keyword body cond => [.enterDo keyword body cond]
  | brk keyword => [.enterBreak keyword]
  | cont keyword => [.enterContinue keyword]
  | inline keyword text => [.enterInline keyword text]
  | expr e => .enterExpr e :: e.opening
  | params _ | ret _ _ | yield _ _ => []

/-- What a visitor is told of a node after its children. -/
def closing : Node → List Event
  | program p => [.exitProgram p]
  | start s => [.exitStart s]
  | data d => [.exitData d]
  | function f => [.exitFunction f]
  | params f => [.exitParams f]
  | block b => [.exitBlock b]
  | assign a => [.exitAssign a]
  | branch c => [.exitIf c]
  | whileLoop keyword cond body => [.exitWhile keyword cond body]
  | doLoop keyword body cond => [.exitDo keyword body cond]
  | ret keyword value => [.exitReturn keyword value]
  | yield keyword value => [.exitYield keyword value]
  | expr e => [e.closing, .exitExpr e]
  | imports _ | decl _ | param _ _ | brk _ | cont _ | inline _ _ => []

/-- The events of a node, as the walk over it has them. -/
def events : Node → List Event
  | program p => p.events
  | imports i => [.enterImport i]
  | start s => (Item.start s).events
  | data d => d.events
  | decl d => [.enterDecl d]
  | function f => f.events
  | params f => f.params.map (Event.enterParam f) ++ [.exitParams f]
  | param f d => [.enterParam f d]
  | block b => b.events
  | assign a => (Stmt.assign a).events
  | branch c => c.events
  | whileLoop keyword cond body => (Stmt.whileLoop keyword cond body).events
  | doLoop keyword body cond => (Stmt.doLoop keyword body cond).events
  | ret keyword value => (Stmt.ret keyword value).events
  | yield keyword value => (Stmt.yield keyword value).events
  | brk keyword => [.enterBreak keyword]
  | cont keyword => [.enterContinue keyword]
  | inline keyword text => [.enterInline keyword text]
  | expr e => e.events

end Node

/-! ## A node is its own events around those of its children -/

theorem Expr.eventsOfList_eq_flatMap (es : List Expr) :
    Expr.eventsOfList es = (es.map Node.expr).flatMap Node.events := by
  induction es with
  | nil => simp [Expr.eventsOfList]
  | cons e rest ih => simp [Expr.eventsOfList, ih, Node.events]

theorem Expr.eventsOfOption_eq_flatMap (e : Option Expr) :
    Expr.eventsOfOption e = (e.toList.map Node.expr).flatMap Node.events := by
  cases e <;> simp [Expr.eventsOfOption, Node.events]

theorem Expr.inner_eq_flatMap (e : Expr) :
    e.inner = (e.parts.map Node.expr).flatMap Node.events := by
  cases e <;> simp [Expr.inner, Expr.parts, Expr.eventsOfList_eq_flatMap, Node.events]

theorem Stmt.events_node (s : Stmt) : s.node.events = s.events := by
  cases s <;> simp [Stmt.node, Node.events, Stmt.events]

theorem Stmt.eventsOfList_eq_flatMap (body : List Stmt) :
    Stmt.eventsOfList body = (body.map Stmt.node).flatMap Node.events := by
  induction body with
  | nil => simp [Stmt.eventsOfList]
  | cons s rest ih => simp [Stmt.eventsOfList, ih, Stmt.events_node]

theorem Else.events_eq_flatMap (otherwise : Else) :
    otherwise.events = otherwise.nodes.flatMap Node.events := by
  cases otherwise <;> simp [Else.events, Else.nodes, Node.events]

theorem Item.events_node (item : Item) : item.node.events = item.events := by
  cases item <;> simp [Item.node, Node.events, Item.events]

theorem Node.events_eq (n : Node) :
    n.events = n.opening ++ (n.children.flatMap Node.events ++ n.closing) := by
  cases n with
  | program p =>
    simp only [Node.opening, Node.children, Node.closing, List.flatMap_map, Item.events_node]
    rfl
  | data d =>
    simp [Node.events, Node.opening, Node.children, Node.closing, DataDef.events,
      Expr.eventsOfOption_eq_flatMap]
  | function f =>
    simp [Node.events, Node.opening, Node.children, Node.closing, Function.events]
  | params f =>
    simp only [Node.events, Node.opening, Node.children, Node.closing, List.flatMap_map]
    rw [← List.map_eq_flatMap, List.nil_append]
  | block b =>
    cases b
    simp [Node.events, Node.opening, Node.children, Node.closing, Block.events, Block.body,
      Stmt.eventsOfList_eq_flatMap]
  | branch c =>
    cases c
    simp [Node.events, Node.opening, Node.children, Node.closing, Conditional.events,
      Else.events_eq_flatMap]
  | expr e =>
    simp only [Node.events, Node.opening, Node.children, Node.closing, e.events_eq,
      e.inner_eq_flatMap, List.cons_append]
  | _ =>
    simp [Node.events, Node.opening, Node.children, Node.closing, Stmt.events, Item.events,
      Expr.eventsOfOption_eq_flatMap]

/-! ## Induction over nodes -/

/-- A property that a node has when all its children have it. -/
def Node.Hereditary (P : Node → Prop) : Prop := ∀ n, (∀ c ∈ n.children, P c) → P n

section Induction

variable {P : Node → Prop}

mutual

theorem Expr.node_induction (step : Node.Hereditary P) : ∀ (e : Expr), P (.expr e)
  | .literal id token given => step _ (by simp [Node.children, Expr.parts])
  | .var id node name => step _ (by simp [Node.children, Expr.parts])
  | .call id node callee args =>
    step _ (by simpa [Node.children, Expr.parts] using Expr.node_inductionList step args)
  | .binary id op token lhs rhs =>
    step _ (by
      simpa [Node.children, Expr.parts] using ⟨Expr.node_induction step lhs, Expr.node_induction step rhs⟩)
  | .unary id op token operand =>
    step _ (by simpa [Node.children, Expr.parts] using Expr.node_induction step operand)
  | .cast id target operand =>
    step _ (by simpa [Node.children, Expr.parts] using Expr.node_induction step operand)
  | .grouped id inner =>
    step _ (by simpa [Node.children, Expr.parts] using Expr.node_induction step inner)
  | .format id token args =>
    step _ (by simpa [Node.children, Expr.parts] using Expr.node_inductionList step args)

theorem Expr.node_inductionList (step : Node.Hereditary P) : ∀ (es : List Expr), ∀ e ∈ es, P (.expr e)
  | [] => by simp
  | e :: rest =>
    List.forall_mem_cons.mpr ⟨Expr.node_induction step e, Expr.node_inductionList step rest⟩

end

theorem DataDef.node_induction (step : Node.Hereditary P) (d : DataDef) : P (.data d) := by
  refine step _ ?_
  simp only [Node.children, List.forall_mem_cons, List.forall_mem_map]
  exact ⟨step _ (by simp [Node.children]), fun e _ => Expr.node_induction step e⟩

theorem Expr.node_inductionOption (step : Node.Hereditary P) (value : Option Expr) :
    ∀ c ∈ value.toList.map Node.expr, P c := by
  simp only [List.forall_mem_map]
  exact fun e _ => Expr.node_induction step e

mutual

theorem Stmt.node_induction (step : Node.Hereditary P) : ∀ (s : Stmt), P s.node
  | .data definition => DataDef.node_induction step definition
  | .assign a => step _ (by simpa [Stmt.node, Node.children] using Expr.node_induction step a.value)
  | .expr value => Expr.node_induction step value
  | .branch conditional => Conditional.node_induction step conditional
  | .whileLoop keyword cond body => step _ (by
      simp only [Stmt.node, Node.children, List.forall_mem_append, List.forall_mem_singleton]
      exact ⟨Expr.node_inductionOption step cond, Block.node_induction step body⟩)
  | .doLoop keyword body cond => step _ (by
      simp only [Stmt.node, Node.children, List.forall_mem_cons]
      exact ⟨Block.node_induction step body, Expr.node_inductionOption step cond⟩)
  | .ret keyword value => step _ (Expr.node_inductionOption step value)
  | .yield keyword value => step _ (Expr.node_inductionOption step value)
  | .brk keyword => step _ (by simp [Stmt.node, Node.children])
  | .cont keyword => step _ (by simp [Stmt.node, Node.children])
  | .inline keyword text => step _ (by simp [Stmt.node, Node.children])
  | .block body => Block.node_induction step body

theorem Block.node_induction (step : Node.Hereditary P) : ∀ (b : Block), P (.block b)
  | .mk id brace body =>
    step _ (by simpa [Node.children, Block.body] using Stmt.node_inductionList step body)

theorem Stmt.node_inductionList (step : Node.Hereditary P) : ∀ (body : List Stmt), ∀ s ∈ body, P s.node
  | [] => by simp
  | s :: rest =>
    List.forall_mem_cons.mpr ⟨Stmt.node_induction step s, Stmt.node_inductionList step rest⟩

theorem Conditional.node_induction (step : Node.Hereditary P) : ∀ (c : Conditional), P (.branch c)
  | .mk keyword cond body otherwise => step _ (by
      simp only [Node.children, List.forall_mem_cons]
      exact ⟨Expr.node_induction step cond, Block.node_induction step body,
        Else.node_induction step otherwise⟩)

theorem Else.node_induction (step : Node.Hereditary P) : ∀ (otherwise : Else), ∀ c ∈ otherwise.nodes, P c
  | .none => by simp [Else.nodes]
  | .elseIf next => by simpa [Else.nodes] using Conditional.node_induction step next
  | .block body => by simpa [Else.nodes] using Block.node_induction step body

end

theorem Function.node_induction (step : Node.Hereditary P) (f : Function) : P (.function f) := by
  refine step _ ?_
  simp only [Node.children, List.forall_mem_cons]
  refine ⟨step _ ?_, Block.node_induction step f.body, by simp⟩
  simp only [Node.children, List.forall_mem_map]
  exact fun d _ => step _ (by simp [Node.children])

theorem Item.node_induction (step : Node.Hereditary P) (item : Item) : P item.node := by
  cases item with
  | imports i => exact step _ (by simp [Item.node, Node.children])
  | data definition => exact DataDef.node_induction step definition
  | function f => exact Function.node_induction step f
  | start s =>
    exact step _ (by simpa [Item.node, Node.children] using Block.node_induction step s.body)

/-- What passes from the children of a node to the node holds of all parts of a program. -/
theorem Program.node_induction (step : Node.Hereditary P) (p : Program) : P (.program p) := by
  refine step _ ?_
  simp only [Node.children, List.forall_mem_map]
  exact fun item _ => Item.node_induction step item

end Induction

/-! ## Calls -/

/-- An event of an occurrence of a node: the path from the root to the occurrence, each number
choosing a child, the way in or the way out, and the event's rank among those of that way. -/
structure Call where
  path : List Nat
  leaving : Bool
  rank : Nat
  deriving DecidableEq

/-- The order of calls, for which only the paths and the ways matter. -/
inductive Call.Precedes : Call → Call → Prop
  | ranked {path : List Nat} {leaving : Bool} {rank rank' : Nat} (h : rank < rank') :
    Precedes ⟨path, leaving, rank⟩ ⟨path, leaving, rank'⟩
  | across {path : List Nat} {rank rank' : Nat} :
    Precedes ⟨path, false, rank⟩ ⟨path, true, rank'⟩
  /-- A node is entered before anything inside it. -/
  | enters {path rest : List Nat} {i rank rank' : Nat} {leaving : Bool} :
    Precedes ⟨path, false, rank⟩ ⟨path ++ i :: rest, leaving, rank'⟩
  /-- A node is left after everything inside it. -/
  | leaves {path rest : List Nat} {i rank rank' : Nat} {leaving : Bool} :
    Precedes ⟨path ++ i :: rest, leaving, rank⟩ ⟨path, true, rank'⟩
  /-- All of a child comes before all of a later child. -/
  | siblings {path rest rest' : List Nat} {i j rank rank' : Nat} {leaving leaving' : Bool}
    (h : i < j) :
    Precedes ⟨path ++ i :: rest, leaving, rank⟩ ⟨path ++ j :: rest', leaving', rank'⟩

namespace Node

/-- The node at the end of a path. -/
def at? : Node → List Nat → Option Node
  | n, [] => some n
  | n, i :: path => n.children[i]?.bind fun c => c.at? path

/-- A node's own events of the way in or of the way out. -/
def own (n : Node) (leaving : Bool) : List Event :=
  if leaving then n.closing else n.opening

/-- The event of a call, if the node has such an occurrence with so many events. -/
def event? (n : Node) (call : Call) : Option Event :=
  (n.at? call.path).bind fun m => (m.own call.leaving)[call.rank]?

/-- The calls make up the events: one call for each event of each occurrence, in order. -/
structure Makes (n : Node) (calls : List Call) (events : List Event) : Prop where
  events : calls.map n.event? = events.map some
  exact : ∀ call, call ∈ calls ↔ (n.event? call).isSome
  ordered : calls.Pairwise Call.Precedes

end Node

namespace Call

theorem Precedes.ne {x y : Call} (h : Precedes x y) : x ≠ y := by
  intro heq
  cases h with
  | ranked h => simp at heq; omega
  | siblings h => simp at heq; omega
  | across | enters | leaves => simp at heq

/-- The same call, seen from the parent. -/
def under (i : Nat) (call : Call) : Call := { call with path := i :: call.path }

theorem under_inj {i : Nat} {x y : Call} (h : x.under i = y.under i) : x = y := by
  cases x
  cases y
  simpa [under] using h

theorem Precedes.under {x y : Call} (h : Precedes x y) (i : Nat) :
    Precedes (x.under i) (y.under i) := by
  cases h with
  | ranked h => exact .ranked h
  | across => exact .across
  | enters => exact .enters
  | @leaves path => exact @leaves (i :: path) _ _ _ _ _
  | @siblings path _ _ _ _ _ _ _ _ h => exact @siblings (i :: path) _ _ _ _ _ _ _ _ h

/-- The same call of a child, when one more child stands before it. -/
def shift : Call → Call
  | ⟨[], leaving, rank⟩ => ⟨[], leaving, rank⟩
  | ⟨i :: path, leaving, rank⟩ => ⟨(i + 1) :: path, leaving, rank⟩

theorem shift_inj {x y : Call} (h : x.shift = y.shift) : x = y := by
  obtain ⟨path, _, _⟩ := x
  obtain ⟨path', _, _⟩ := y
  cases path <;> cases path' <;> simp_all [shift]

theorem Precedes.shift {x y : Call} (h : Precedes x y) : Precedes x.shift y.shift := by
  cases h with
  | @ranked path _ _ _ h => cases path <;> exact .ranked h
  | @across path => cases path <;> exact .across
  | @enters path rest i =>
    cases path with
    | nil => exact @enters [] _ _ _ _ _
    | cons k path => exact @enters ((k + 1) :: path) _ _ _ _ _
  | @leaves path =>
    cases path with
    | nil => exact @leaves [] _ _ _ _ _
    | cons k path => exact @leaves ((k + 1) :: path) _ _ _ _ _
  | @siblings path _ _ _ _ _ _ _ _ h =>
    cases path with
    | nil => exact @siblings [] _ _ _ _ _ _ _ _ (Nat.succ_lt_succ h)
    | cons k path => exact @siblings ((k + 1) :: path) _ _ _ _ _ _ _ _ h

end Call

/-- The event of a call of one of some children. -/
def Node.childEvent? (children : List Node) (call : Call) : Option Event :=
  match call.path with
  | [] => none
  | i :: path => children[i]?.bind fun c => c.event? { call with path }

namespace Node

theorem event?_under (n : Node) (i : Nat) (call : Call) :
    n.event? (call.under i) = childEvent? n.children (call.under i) := by
  simp only [event?, Call.under, at?, childEvent?, Option.bind_assoc]

theorem childEvent?_under (c : Node) (rest : List Node) (call : Call) :
    childEvent? (c :: rest) (call.under 0) = c.event? call := by
  simp [childEvent?, Call.under]

theorem childEvent?_shift (c : Node) (rest : List Node) (call : Call) :
    childEvent? (c :: rest) call.shift = childEvent? rest call := by
  obtain ⟨path, leaving, rank⟩ := call
  cases path <;> simp [childEvent?, Call.shift]

/-- The calls of some children, one after the other. -/
theorem exists_childCalls (children : List Node)
    (h : ∀ c ∈ children, ∃ calls, c.Makes calls c.events) :
    ∃ calls : List Call,
      calls.map (childEvent? children) = (children.flatMap Node.events).map some ∧
      (∀ call, call ∈ calls ↔ (childEvent? children call).isSome) ∧
      calls.Pairwise Call.Precedes := by
  induction children with
  | nil =>
    refine ⟨[], rfl, ?_, .nil⟩
    rintro ⟨path, leaving, rank⟩
    cases path <;> simp [childEvent?]
  | cons c rest ih =>
    rw [List.forall_mem_cons] at h
    obtain ⟨first, hf⟩ := h.1
    obtain ⟨others, hevents, hexact, hordered⟩ := ih h.2
    have hbelow : ∀ x ∈ others, x.path ≠ [] := by
      rintro ⟨path, leaving, rank⟩ hx rfl
      simp [hexact, childEvent?] at hx
    refine ⟨first.map (Call.under 0) ++ others.map Call.shift, ?_, ?_, ?_⟩
    · simp only [List.map_append, List.map_map, Function.comp_def, childEvent?_under,
        childEvent?_shift, List.flatMap_cons, hf.events, hevents]
    · rintro ⟨path, leaving, rank⟩
      rw [List.mem_append, List.mem_map, List.mem_map]
      -- the first number of the path tells which of the two lists the call is from
      rcases path with _ | ⟨_ | i, path⟩
      · refine ⟨?_, by simp [childEvent?]⟩
        rintro (⟨x, -, hx⟩ | ⟨⟨path, _, _⟩, hm, hx⟩)
        · simp [Call.under] at hx
        · cases path with
          | nil => exact absurd rfl (hbelow _ hm)
          | cons => simp [Call.shift] at hx
      · rw [show (⟨0 :: path, leaving, rank⟩ : Call) = Call.under 0 ⟨path, leaving, rank⟩ from rfl,
          childEvent?_under, ← hf.exact]
        constructor
        · rintro (⟨x, hm, hx⟩ | ⟨⟨path, _, _⟩, hm, hx⟩)
          · exact Call.under_inj hx ▸ hm
          · cases path <;> simp [Call.shift, Call.under] at hx
        · exact fun hm => .inl ⟨_, hm, rfl⟩
      · rw [show (⟨(i + 1) :: path, leaving, rank⟩ : Call) = Call.shift ⟨i :: path, leaving, rank⟩
          from rfl, childEvent?_shift, ← hexact]
        constructor
        · rintro (⟨x, -, hx⟩ | ⟨x, hm, hx⟩)
          · simp [Call.shift, Call.under] at hx
          · exact Call.shift_inj hx ▸ hm
        · exact fun hm => .inr ⟨_, hm, rfl⟩
    · rw [List.pairwise_append, List.pairwise_map, List.pairwise_map]
      refine ⟨hf.ordered.imp fun hxy => hxy.under 0, hordered.imp fun hxy => hxy.shift, ?_⟩
      simp only [List.forall_mem_map]
      rintro x - ⟨path, leaving, rank⟩ hy
      cases path with
      | nil => exact absurd rfl (hbelow _ hy)
      | cons j path => exact @Call.Precedes.siblings [] _ _ _ _ _ _ _ _ (Nat.succ_pos j)

theorem event?_own (n : Node) (leaving : Bool) (rank : Nat) :
    n.event? ⟨[], leaving, rank⟩ = (n.own leaving)[rank]? := rfl

/-- The calls of a node on one of the two ways. -/
def ownCalls (n : Node) (leaving : Bool) : List Call :=
  (List.range (n.own leaving).length).map (Call.mk [] leaving)

theorem map_ownCalls (n : Node) (leaving : Bool) :
    (n.ownCalls leaving).map n.event? = (n.own leaving).map some := by
  rw [ownCalls, List.map_map]
  refine List.ext_getElem (by simp) ?_
  intro i hi hi'
  simp [event?_own]

theorem pairwise_ownCalls (n : Node) (leaving : Bool) :
    (n.ownCalls leaving).Pairwise Call.Precedes := by
  rw [ownCalls, List.pairwise_map]
  exact List.pairwise_lt_range.imp fun h => .ranked h

theorem exists_rank_of_mem_ownCalls {n : Node} {leaving : Bool} {call : Call}
    (h : call ∈ n.ownCalls leaving) : ∃ rank, call = ⟨[], leaving, rank⟩ := by
  obtain ⟨rank, -, rfl⟩ := List.mem_map.mp h
  exact ⟨rank, rfl⟩

theorem mem_ownCalls (n : Node) (leaving : Bool) (call : Call) :
    call ∈ n.ownCalls leaving ↔
      call.path = [] ∧ call.leaving = leaving ∧ (n.event? call).isSome := by
  obtain ⟨path, leaving', rank⟩ := call
  simp only [ownCalls, List.mem_map, List.mem_range, Call.mk.injEq]
  constructor
  · rintro ⟨_, h, rfl, rfl, rfl⟩
    exact ⟨rfl, rfl, by simpa [event?_own] using h⟩
  · rintro ⟨rfl, rfl, h⟩
    exact ⟨rank, by simpa [event?_own] using h, rfl, rfl, rfl⟩

/-- One step of the induction: a node's calls of the way in, those of its children, and its calls
of the way out. -/
theorem exists_calls_of_children (n : Node)
    (h : ∀ c ∈ n.children, ∃ calls, c.Makes calls c.events) : ∃ calls, n.Makes calls n.events := by
  obtain ⟨inner, hevents, hexact, hordered⟩ := exists_childCalls n.children h
  -- calls of children have a path that is not empty, which tells them from own calls
  have hbelow : ∀ x ∈ inner, ∃ i y, x = Call.under i y := by
    rintro ⟨path, leaving, rank⟩ hx
    cases path with
    | nil => simp [hexact, childEvent?] at hx
    | cons i path => exact ⟨i, ⟨path, leaving, rank⟩, rfl⟩
  have hinner : inner.map n.event? = inner.map (childEvent? n.children) := by
    refine List.map_congr_left fun x hx => ?_
    obtain ⟨i, y, rfl⟩ := hbelow x hx
    exact n.event?_under i y
  refine ⟨n.ownCalls false ++ (inner ++ n.ownCalls true), ?_, ?_, ?_⟩
  · simp only [List.map_append, map_ownCalls, hinner, hevents, n.events_eq]
    rfl
  · intro call
    rw [List.mem_append, List.mem_append, mem_ownCalls, mem_ownCalls, hexact]
    obtain ⟨path, leaving, rank⟩ := call
    cases path with
    | nil => cases leaving <;> simp [childEvent?]
    | cons i path =>
      have hi := n.event?_under i ⟨path, leaving, rank⟩
      simp only [Call.under] at hi
      simp [hi]
  · rw [List.pairwise_append, List.pairwise_append]
    refine ⟨n.pairwise_ownCalls false, ⟨hordered, n.pairwise_ownCalls true, ?_⟩, ?_⟩
    · intro x hx y hy
      obtain ⟨i, x, rfl⟩ := hbelow x hx
      obtain ⟨rank, rfl⟩ := exists_rank_of_mem_ownCalls hy
      exact @Call.Precedes.leaves [] _ _ _ _ _
    · intro x hx y hy
      obtain ⟨rank, rfl⟩ := exists_rank_of_mem_ownCalls hx
      rcases List.mem_append.mp hy with hy | hy
      · obtain ⟨i, y, rfl⟩ := hbelow y hy
        exact @Call.Precedes.enters [] _ _ _ _ _
      · obtain ⟨rank', rfl⟩ := exists_rank_of_mem_ownCalls hy
        exact .across

end Node

/-! ## Proper nesting -/

/-- The event that closes what an event opens. -/
def Event.exit? : Event → Option Event
  | .enterProgram p => some (.exitProgram p)
  | .enterStart s => some (.exitStart s)
  | .enterData d => some (.exitData d)
  | .enterFunction f => some (.exitFunction f)
  | .enterBlock b => some (.exitBlock b)
  | .enterAssign a => some (.exitAssign a)
  | .enterIf c => some (.exitIf c)
  | .enterWhile keyword cond body => some (.exitWhile keyword cond body)
  | .enterDo keyword body cond => some (.exitDo keyword body cond)
  | .enterExpr e => some (.exitExpr e)
  | .enterVariable e name => some (.exitVariable e name)
  | .enterCall e callee args => some (.exitCall e callee args)
  | _ => none

/-- The event closes something. -/
def Event.isExit : Event → Bool
  | .exitProgram _ | .exitStart _ | .exitData _ | .exitFunction _ | .exitBlock _ | .exitAssign _
  | .exitIf _ | .exitWhile .. | .exitDo .. | .exitExpr _ | .exitVariable .. | .exitCall .. => true
  | _ => false

theorem Event.isExit_of_exit? {event exit : Event} (h : event.exit? = some exit) :
    exit.isExit = true := by
  cases event <;> cases h <;> rfl

/-- Each event that opens something is followed by the one that closes it, and the pairs do not
cross. Events without a partner may stand anywhere. -/
inductive Balanced : List Event → Prop
  | nil : Balanced []
  | single {event : Event} (hopen : event.exit? = none) (hclose : ∀ e : Event, e.exit? ≠ some event) :
    Balanced [event]
  | pair {event exit : Event} {inner : List Event} (h : event.exit? = some exit)
    (hinner : Balanced inner) : Balanced (event :: (inner ++ [exit]))
  | append {first rest : List Event} (hfirst : Balanced first) (hrest : Balanced rest) :
    Balanced (first ++ rest)

namespace Balanced

theorem flatMap {nodes : List Node} (h : ∀ n ∈ nodes, Balanced n.events) :
    Balanced (nodes.flatMap Node.events) := by
  induction nodes with
  | nil => exact .nil
  | cons n rest ih =>
    rw [List.forall_mem_cons] at h
    exact .append h.1 (ih h.2)

/-- A node without children and with one event, which has no partner. -/
theorem leaf {event : Event} (h : event.exit? = none) (hexit : event.isExit = false) :
    Balanced [event] :=
  .single h fun _ he => by simp [Event.isExit_of_exit? he] at hexit

theorem expr (e : Expr) {inner : List Event} (h : Balanced inner) :
    Balanced (.enterExpr e :: (e.opening ++ (inner ++ [e.closing, .exitExpr e]))) := by
  have hown : Balanced (e.opening ++ (inner ++ [e.closing])) := by
    cases e with
    | var | call => exact .pair rfl h
    | literal | binary | unary | cast | grouped | format =>
      exact .append .nil (.append h (.leaf rfl rfl))
  simpa using @pair (.enterExpr e) _ _ rfl hown

end Balanced

theorem Node.balanced_of_children (n : Node) (h : ∀ c ∈ n.children, Balanced c.events) :
    Balanced n.events := by
  rw [n.events_eq]
  have hinner := Balanced.flatMap h
  cases n with
  | imports | decl | param | brk | cont | inline => exact .leaf rfl rfl
  | params | ret | yield => exact .append .nil (.append hinner (.leaf rfl rfl))
  | expr e => exact .expr e hinner
  | program | start | data | function | block | assign | branch | whileLoop | doLoop =>
    exact .pair rfl hinner

/-! ## Visitors -/

section Visitors

variable {ε σ : Type}

/-- The outcome of a visitor together with the events that it was called with. -/
def recorded (called : List Event) :
    EStateM.Result ε σ Unit → EStateM.Result ε (σ × List Event) Unit
  | .ok _ s => .ok () (s, called)
  | .error e s => .error e (s, called)

/-- A visitor that writes down each call and is otherwise the given one. -/
def recording (visit : Event → EStateM ε σ Unit) (event : Event) :
    EStateM ε (σ × List Event) Unit :=
  fun state => recorded (state.2 ++ [event]) (visit event state.1)

/-- Every call succeeds, each in the state that the one before it left behind. -/
inductive Succeeds (visit : Event → EStateM ε σ Unit) : σ → List Event → σ → Prop
  | nil {s : σ} : Succeeds visit s [] s
  | cons {s t u : σ} {event : Event} {rest : List Event} (h : visit event s = .ok () t)
    (hrest : Succeeds visit t rest u) : Succeeds visit s (event :: rest) u

/-- Calling a visitor with the events of a list until a call fails: the events it was called with
and the outcome. -/
inductive Visits (visit : Event → EStateM ε σ Unit) (events : List Event) (s : σ) :
    List Event → EStateM.Result ε σ Unit → Prop
  | all {t : σ} (h : Succeeds visit s events t) : Visits visit events s events (.ok () t)
  | stopped {before rest : List Event} {event : Event} {t u : σ} {e : ε}
    (hevents : events = before ++ event :: rest) (h : Succeeds visit s before t)
    (hfail : visit event t = .error e u) :
    Visits visit events s (before ++ [event]) (.error e u)

variable (visit : Event → EStateM ε σ Unit)

theorem Visits.cons {event : Event} {rest called : List Event} {s t : σ}
    {outcome : EStateM.Result ε σ Unit} (h : visit event s = .ok () t)
    (hrest : Visits visit rest t called outcome) :
    Visits visit (event :: rest) s (event :: called) outcome := by
  cases hrest with
  | all hall => exact .all (.cons h hall)
  | stopped hevents hbefore hfail => exact .stopped (by rw [hevents]; rfl) (.cons h hbefore) hfail

/-- A run over a list calls the visitor with its events until a call fails. -/
theorem exists_visits_forM (events : List Event) (s : σ) (log : List Event) :
    ∃ called, forM events (recording visit) (s, log) =
        recorded (log ++ called) (forM events visit s) ∧
      Visits visit events s called (forM events visit s) := by
  induction events generalizing s log with
  | nil => exact ⟨[], by rw [List.append_nil]; rfl, .all .nil⟩
  | cons event rest ih =>
    simp only [List.forM_cons, bind, EStateM.bind, recording]
    cases h : visit event s with
    | ok a t =>
      obtain ⟨called, hrun, hvisits⟩ := ih t (log ++ [event])
      refine ⟨event :: called, ?_, hvisits.cons visit h⟩
      simpa [recorded] using hrun
    | error e t => exact ⟨[event], rfl, @Visits.stopped _ _ visit _ s [] rest event s t e rfl .nil h⟩

end Visitors

/-- **A walk is a run over a list that the program alone determines, and stops where the visitor
fails.** The list holds the events of each occurrence of a node exactly once, in the order of
`Call.Precedes`, and what is opened in it is closed in it without crossings. Whatever a visitor
does, it is called with the events of the list in order: with all of them if no call fails, and
otherwise with those up to the first failing one, whose error is the outcome. -/
theorem Program.walk_visits_events (p : Program) :
    (∃ calls : List Call, (Node.program p).Makes calls p.events ∧ calls.Nodup) ∧
    Balanced p.events ∧
    ∀ (ε σ : Type) (visit : Event → EStateM ε σ Unit) (s : σ), ∃ called : List Event,
      (p.walk (recording visit)).run (s, []) = recorded called ((p.walk visit).run s) ∧
      Visits visit p.events s called ((p.walk visit).run s) := by
  refine ⟨?_, p.node_induction Node.balanced_of_children, ?_⟩
  · obtain ⟨calls, hcalls⟩ := p.node_induction Node.exists_calls_of_children
    exact ⟨calls, hcalls, hcalls.ordered.imp fun h => h.ne⟩
  · intro ε σ visit s
    rw [p.walk_eq_forM, p.walk_eq_forM]
    exact exists_visits_forM visit p.events s []

end Semant
