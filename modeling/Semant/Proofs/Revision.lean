import Semant.Proofs.Tracking
import Semant.Proofs.Traversal

/-!
# Programs with other expressions

A revision replaces the expressions of a program and leaves everything around them alone:
declarations, names of types, statements, blocks and functions, with their numbers and places. What
is done to an expression is a parameter here. It is applied to every expression that is not part of
another one, and reaches the parts only if it does so itself.

Everything that carries a tree is revised with it: events, symbols and nodes. Apart from the
expressions a revised node has the same events and the same children (`Node.opening_revise`,
`Node.children_revise`), so that properties of a program and its revision can be shown by induction
over nodes, with the one case of an expression left to whoever knows the revision.

A symbol knows its definition, and so a revision changes the symbols of functions. But nobody looks
at the body of a function through its symbol (`Symbol.bare`), and dumps are the same as far as the
stores are alike (`Store.dump_congr`).
-/

set_option autoImplicit false

namespace Semant

variable (r : Expr → Expr)

/-! ## Trees -/

def DataDef.revise (d : DataDef) : DataDef := { d with init := d.init.map r }

def Assignment.revise (a : Assignment) : Assignment := { a with value := r a.value }

mutual

/-- The statement with other expressions. -/
def Stmt.revise : Stmt → Stmt
  | .data definition => .data (definition.revise r)
  | .assign assignment => .assign (assignment.revise r)
  | .expr value => .expr (r value)
  | .branch conditional => .branch conditional.revise
  | .whileLoop keyword cond body => .whileLoop keyword (cond.map r) body.revise
  | .doLoop keyword body cond => .doLoop keyword body.revise (cond.map r)
  | .ret keyword value => .ret keyword (value.map r)
  | .yield keyword value => .yield keyword (value.map r)
  | .brk keyword => .brk keyword
  | .cont keyword => .cont keyword
  | .inline keyword text => .inline keyword text
  | .block body => .block body.revise

def Block.revise : Block → Block
  | .mk id brace body => .mk id brace (Stmt.reviseList body)

def Stmt.reviseList : List Stmt → List Stmt
  | [] => []
  | s :: rest => s.revise :: Stmt.reviseList rest

def Conditional.revise : Conditional → Conditional
  | .mk keyword cond body otherwise => .mk keyword (r cond) body.revise otherwise.revise

def Else.revise : Else → Else
  | .none => .none
  | .elseIf next => .elseIf next.revise
  | .block body => .block body.revise

end

def Function.revise (f : Function) : Function := { f with body := f.body.revise r }

def Start.revise (s : Start) : Start := { s with body := s.body.revise r }

def Item.revise : Item → Item
  | .imports i => .imports i
  | .data definition => .data (definition.revise r)
  | .function f => .function (f.revise r)
  | .start s => .start (s.revise r)

/-- The program with other expressions. -/
def Program.revise (p : Program) : Program := { p with items := p.items.map (Item.revise r) }

theorem Stmt.reviseList_eq_map (body : List Stmt) :
    Stmt.reviseList r body = body.map (Stmt.revise r) := by
  induction body with
  | nil => rfl
  | cons s rest ih => rw [Stmt.reviseList, List.map_cons, ih]

@[simp]
theorem Block.id_revise (b : Block) : (b.revise r).id = b.id := by
  cases b
  rfl

@[simp]
theorem Block.position_revise (b : Block) : (b.revise r).position = b.position := by
  cases b
  rfl

/-! ## Events and nodes -/

def Event.revise : Event → Event
  | .enterProgram p => .enterProgram (p.revise r)
  | .exitProgram p => .exitProgram (p.revise r)
  | .enterImport i => .enterImport i
  | .enterStart s => .enterStart (s.revise r)
  | .exitStart s => .exitStart (s.revise r)
  | .enterData d => .enterData (d.revise r)
  | .exitData d => .exitData (d.revise r)
  | .enterDecl d => .enterDecl d
  | .enterFunction f => .enterFunction (f.revise r)
  | .exitFunction f => .exitFunction (f.revise r)
  | .enterParam f d => .enterParam (f.revise r) d
  | .exitParams f => .exitParams (f.revise r)
  | .enterBlock b => .enterBlock (b.revise r)
  | .exitBlock b => .exitBlock (b.revise r)
  | .enterAssign a => .enterAssign (a.revise r)
  | .exitAssign a => .exitAssign (a.revise r)
  | .enterIf c => .enterIf (c.revise r)
  | .exitIf c => .exitIf (c.revise r)
  | .enterWhile keyword cond body => .enterWhile keyword (cond.map r) (body.revise r)
  | .exitWhile keyword cond body => .exitWhile keyword (cond.map r) (body.revise r)
  | .enterDo keyword body cond => .enterDo keyword (body.revise r) (cond.map r)
  | .exitDo keyword body cond => .exitDo keyword (body.revise r) (cond.map r)
  | .exitReturn keyword value => .exitReturn keyword (value.map r)
  | .exitYield keyword value => .exitYield keyword (value.map r)
  | .enterBreak keyword => .enterBreak keyword
  | .enterContinue keyword => .enterContinue keyword
  | .enterInline keyword text => .enterInline keyword text
  | .enterExpr e => .enterExpr (r e)
  | .exitExpr e => .exitExpr (r e)
  | .exitLiteral e token => .exitLiteral (r e) token
  | .enterVariable e name => .enterVariable (r e) name
  | .exitVariable e name => .exitVariable (r e) name
  | .enterCall e callee args => .enterCall (r e) callee (args.map r)
  | .exitCall e callee args => .exitCall (r e) callee (args.map r)
  | .exitBinary e op token lhs rhs => .exitBinary (r e) op token (r lhs) (r rhs)
  | .exitUnary e op token operand => .exitUnary (r e) op token (r operand)
  | .exitCast e target operand => .exitCast (r e) target (r operand)
  | .exitGrouped e inner => .exitGrouped (r e) (r inner)
  | .exitFormat e token args => .exitFormat (r e) token (args.map r)

namespace Node

def revise : Node → Node
  | program p => program (p.revise r)
  | imports i => imports i
  | start s => start (s.revise r)
  | data d => data (d.revise r)
  | decl d => decl d
  | function f => function (f.revise r)
  | params f => params (f.revise r)
  | param f d => param (f.revise r) d
  | block b => block (b.revise r)
  | assign a => assign (a.revise r)
  | branch c => branch (c.revise r)
  | whileLoop keyword cond body => whileLoop keyword (cond.map r) (body.revise r)
  | doLoop keyword body cond => doLoop keyword (body.revise r) (cond.map r)
  | ret keyword value => ret keyword (value.map r)
  | yield keyword value => yield keyword (value.map r)
  | brk keyword => brk keyword
  | cont keyword => cont keyword
  | inline keyword text => inline keyword text
  | expr e => expr (r e)

theorem map_expr_toList (value : Option Expr) :
    (value.map r).toList.map expr = (value.toList.map expr).map (revise r) := by
  cases value <;> rfl

theorem node_revise (s : Stmt) : (s.revise r).node = s.node.revise r := by
  cases s <;> rfl

theorem nodes_revise (otherwise : Else) :
    (otherwise.revise r).nodes = otherwise.nodes.map (revise r) := by
  cases otherwise <;> rfl

/-- Whether the node is an expression. -/
def isExpr : Node → Bool
  | expr _ => true
  | _ => false

variable {n : Node}

theorem children_revise (h : n.isExpr = false) :
    (n.revise r).children = n.children.map (revise r) := by
  cases n with
  | expr e => cases h
  | program p =>
    simp only [revise, children, Program.revise, List.map_map]
    refine List.map_congr_left ?_
    intro item _
    cases item <;> rfl
  | params f =>
    simp only [revise, children, Function.revise, List.map_map]
    rfl
  | data d => simp only [revise, children, DataDef.revise, map_expr_toList, List.map_cons]
  | block b =>
    cases b
    simp only [revise, children, Block.revise, Block.body, Stmt.reviseList_eq_map, List.map_map]
    refine List.map_congr_left ?_
    intro s _
    exact node_revise r s
  | branch c =>
    cases c
    simp only [revise, children, Conditional.revise, nodes_revise, List.map_cons]
  | whileLoop keyword cond body =>
    simp only [revise, children, map_expr_toList, List.map_append, List.map_cons, List.map_nil]
  | doLoop keyword body cond => simp only [revise, children, map_expr_toList, List.map_cons]
  | ret keyword value => simp only [revise, children, map_expr_toList]
  | yield keyword value => simp only [revise, children, map_expr_toList]
  | _ => rfl

theorem opening_revise (h : n.isExpr = false) :
    (n.revise r).opening = n.opening.map (Event.revise r) := by
  cases n with
  | expr e => cases h
  | _ => rfl

theorem closing_revise (h : n.isExpr = false) :
    (n.revise r).closing = n.closing.map (Event.revise r) := by
  cases n with
  | expr e => cases h
  | _ => rfl

end Node

/-! ## Symbols -/

/-- The function without its body. -/
def Function.bare (f : Function) : Function := { f with body := default }

/-- The symbol without the body of its function. Nothing that can be seen of a symbol is lost. -/
def Symbol.bare (x : Symbol) : Symbol :=
  { x with
    definition :=
      match x.definition with
      | .data decl => .data decl
      | .function f => .function f.bare }

@[simp]
theorem Symbol.name_bare (x : Symbol) : x.bare.name = x.name := by
  obtain ⟨_ | _⟩ := x <;> rfl

theorem Symbol.interface_bare (x : Symbol) : x.bare.interface = x.interface := by
  obtain ⟨_ | _⟩ := x <;> rfl

theorem Symbol.describe_bare (x : Symbol) : x.bare.describe = x.describe := by
  obtain ⟨_ | _⟩ := x <;> rfl

/-! ## Dumps -/

namespace Store

variable {store after after' : Store} {p q : Program} {a b : Analysis}

/-- A dump after an analysis goes through. -/
theorem dump_analyzed (h : store.analyze p = (.ok a, after)) :
    after.dump a = .ok (after.listings p) := by
  obtain ⟨hroot, -, houter⟩ := Store.analyze_root h
  obtain ⟨-, -, -, hprogram, -⟩ := Store.analyze_opens h
  obtain ⟨log, hdump⟩ := Pass.dump_linked (s := { store := after, stack := a.stack }) hroot houter
    (Store.analyze_linked h)
  rw [Store.dump, hprogram, hdump]

/-- The scopes of an analysis come one after the other behind those that the store had. -/
theorem listings_analyzed (h : store.analyze p = (.ok a, after)) :
    after.listings p = String.join ((List.range (after.scopes.size - store.scopes.size)).map fun k =>
      after.listingUnlessEmpty (store.scopes.size + k)) := by
  obtain ⟨t, ht, -, -, -, hopens⟩ := Store.analyze_opens h
  have hsize : after.scopes.size = store.scopes.size + p.regions.length := by
    rw [ht, hopens.size, List.length_map]
    rfl
  have hlist : p.regions.map (fun region => after.listingAt region.node)
      = (List.range p.regions.length).map fun k =>
          after.listingUnlessEmpty (store.scopes.size + k) := by
    apply List.ext_getElem?
    intro k
    rw [List.getElem?_map, List.getElem?_map]
    cases hk : p.regions[k]? with
    | none =>
      have hge := List.getElem?_eq_none_iff.mp hk
      rw [List.getElem?_eq_none (by simpa using hge)]
      rfl
    | some region =>
      obtain ⟨hlt, -⟩ := List.getElem?_eq_some_iff.mp hk
      rw [List.getElem?_range hlt, Option.map_some, Option.map_some, listingAt,
        (Store.analyze_recorded h hk).1]
      rfl
  rw [hsize, Nat.add_sub_cancel_left, ← hlist, join_listingAt]
  rfl

theorem symbolsIn_grown (p : Program) (u : Store) (k : ScopeRef) :
    (store.grown p u).symbolsIn (store.scopes.size + k)
      = (u.symbolsIn k).map (store.symbols.size + ·) := by
  unfold symbolsIn
  rw [scope_grown]
  simp [Scope.moved, Bindings.moved]

section Grown

variable {u v : Store} (hscopes : u.scopes = v.scopes)

include hscopes

theorem scope_grown_congr (i : ScopeRef) :
    (store.grown p u).scope (store.scopes.size + i)
      = (store.grown q v).scope (store.scopes.size + i) := by
  rw [scope_grown, scope_grown, Store.scope, Store.scope, hscopes]

/-- The heading of a scope depends on the scope and on the number of the scope around it. -/
theorem heading_grown_congr (k : ScopeRef) :
    (store.grown p u).heading (store.scopes.size + k)
      = (store.grown q v).heading (store.scopes.size + k) := by
  unfold heading scopeId
  rw [scope_grown_congr hscopes (q := q) k, scope_grown]
  cases hparent : (v.scope k).parent with
  | none => simp [Scope.moved, hparent]
  | some parent =>
    have hmoved : ((v.scope k).moved store.scopes.size store.symbols.size).parent
        = some (store.scopes.size + parent) := by
      simp [Scope.moved, hparent]
    simp only [hmoved, scope_grown_congr hscopes (q := q) parent]

/-- What is written about a scope depends on the scope, its heading and what can be seen of its
symbols. -/
theorem listingUnlessEmpty_grown {k : ScopeRef}
    (hsymbols : ∀ ref ∈ u.symbolsIn k, (u.symbol ref).describe = (v.symbol ref).describe) :
    (store.grown p u).listingUnlessEmpty (store.scopes.size + k)
      = (store.grown q v).listingUnlessEmpty (store.scopes.size + k) := by
  have hempty : (store.grown p u).isEmptyScope (store.scopes.size + k)
      = (store.grown q v).isEmptyScope (store.scopes.size + k) :=
    congrArg (fun scope : Scope => scope.bindings.isEmpty) (scope_grown_congr hscopes k)
  have hbound : v.symbolsIn k = u.symbolsIn k := by
    rw [symbolsIn, symbolsIn, Store.scope, Store.scope, hscopes]
  have hlines : (u.symbolsIn k).map (fun ref =>
        "  " ++ ((store.grown p u).symbol (store.symbols.size + ref)).describe ++ "\n")
      = (u.symbolsIn k).map fun ref =>
        "  " ++ ((store.grown q v).symbol (store.symbols.size + ref)).describe ++ "\n" := by
    refine List.map_congr_left ?_
    intro ref hm
    rw [symbol_grown, symbol_grown, hsymbols ref hm]
  have hlisting : (store.grown p u).listing (store.scopes.size + k)
      = (store.grown q v).listing (store.scopes.size + k) := by
    rw [listing, listing, heading_grown_congr hscopes (q := q), symbolsIn_grown, symbolsIn_grown,
      hbound, List.map_map, List.map_map]
    exact congrArg (fun lines => _ ++ String.join lines) hlines
  rw [listingUnlessEmpty, listingUnlessEmpty, hempty, hlisting]

end Grown

/-- A dump can be read off the store. -/
theorem dump_of_listings (h : store.analyze p = (.ok a, after)) {text : String}
    (ht : (store.analyze p).2.listings p = text) : after.dump a = .ok text := by
  rw [h] at ht
  rw [dump_analyzed h, ht]

end Store

/-- **Two analyses in one store are dumped alike** if they made the same scopes and nothing that can
be seen of a bound symbol is different. -/
theorem Store.dump_congr {store : Store} {p q : Program} {a b : Analysis} {u v : Store}
    (hp : store.analyze p = (.ok a, store.grown p u))
    (hq : store.analyze q = (.ok b, store.grown q v)) (hscopes : u.scopes = v.scopes)
    (hsymbols : ∀ k, ∀ ref ∈ u.symbolsIn k, (u.symbol ref).describe = (v.symbol ref).describe) :
    (store.grown p u).dump a = (store.grown q v).dump b := by
  rw [dump_analyzed hp, dump_analyzed hq, listings_analyzed hp, listings_analyzed hq, size_grown,
    size_grown, hscopes]
  congr 2
  refine List.map_congr_left ?_
  intro k _
  exact listingUnlessEmpty_grown hscopes (hsymbols k)

end Semant
