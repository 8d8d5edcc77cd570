import Semant.Proofs.Modularity
import Semant.Proofs.Revision

/-!
# Trees without parentheses

Parentheses are nodes of their own. `Expr.ungroup` takes them all away, and two programs that are
the same without parentheses (`p.ungroup = q.ungroup`) differ in nothing else.

A walk over the rest meets the same events in the same order, except that those of the parentheses
are missing (`Program.events_ungroup`). So a check of the one can be followed beside a check of the
other. The states are alike as far as anything can tell that does not look at the cells of the
parentheses (`Pass.Alike`).

There is one thing that a check does see. Where an operand stands in parentheses it reads the cell
of the outermost pair, and without them the cell of what is inside. Both have the same content once
the operand was walked over. So at each event, what is asked is that the operands have been seen
(`Pass.Seen`), and then the event may as well be about operands without parentheses
(`Pass.visit_ungroup`).
-/

set_option autoImplicit false

namespace Semant

/-! ## Expressions -/

mutual

/-- The expression without parentheses. -/
def Expr.ungroup : Expr → Expr
  | .literal id token given => .literal id token given
  | .var id node name => .var id node name
  | .call id node callee args => .call id node callee (Expr.ungroupList args)
  | .binary id op token lhs rhs => .binary id op token lhs.ungroup rhs.ungroup
  | .unary id op token operand => .unary id op token operand.ungroup
  | .cast id target operand => .cast id target operand.ungroup
  | .grouped _ inner => inner.ungroup
  | .format id token args => .format id token (Expr.ungroupList args)

def Expr.ungroupList : List Expr → List Expr
  | [] => []
  | e :: rest => e.ungroup :: Expr.ungroupList rest

end

/-- The program without parentheses. -/
def Program.ungroup (p : Program) : Program := p.revise Expr.ungroup

/-- Whether the expression is a pair of parentheses. -/
def Expr.isGrouped : Expr → Bool
  | .grouped .. => true
  | _ => false

theorem Expr.ungroupList_eq_map (es : List Expr) :
    Expr.ungroupList es = es.map Expr.ungroup := by
  induction es with
  | nil => rfl
  | cons e rest ih => rw [Expr.ungroupList, List.map_cons, ih]

theorem Expr.id_ungroup {e : Expr} (h : e.isGrouped = false) : e.ungroup.id = e.id := by
  cases e with
  | grouped id inner => cases h
  | _ => rfl

theorem Expr.nameNode_ungroup {e : Expr} (h : e.isGrouped = false) :
    e.ungroup.nameNode = e.nameNode := by
  cases e with
  | grouped id inner => cases h
  | _ => rfl

theorem Expr.isLiteral_ungroup {e : Expr} (h : e.isGrouped = false) :
    e.ungroup.isLiteral = e.isLiteral := by
  cases e with
  | grouped id inner => cases h
  | _ => rfl

/-- Of an expression that is not a pair of parentheses, the cell is the same. -/
theorem Annotations.typeOf_ungroup (notes : Annotations) {e : Expr} (h : e.isGrouped = false) :
    notes.typeOf e.ungroup = notes.typeOf e := by
  cases e with
  | grouped id inner => cases h
  | _ => rfl

theorem Pass.recordType_ungroup {e : Expr} (h : e.isGrouped = false) (type : Ty) :
    Pass.recordType e.ungroup type = Pass.recordType e type := by
  cases e with
  | grouped id inner => cases h
  | _ => rfl

/-! ## Events -/

/-- The expression that the event is about. -/
def Event.expr? : Event → Option Expr
  | .enterExpr e | .exitExpr e | .exitLiteral e _ | .enterVariable e _ | .exitVariable e _ => some e
  | .enterCall e _ _ | .exitCall e _ _ | .exitBinary e _ _ _ _ | .exitUnary e _ _ _ => some e
  | .exitCast e _ _ | .exitGrouped e _ | .exitFormat e _ _ => some e
  | _ => none

/-- Whether the event is about a pair of parentheses. -/
def Event.isParenthesis (event : Event) : Bool := event.expr?.any Expr.isGrouped

/-- The events that are left without parentheses. -/
def ungrouped (events : List Event) : List Event :=
  (events.filter fun event => !event.isParenthesis).map (Event.revise Expr.ungroup)

@[simp]
theorem ungrouped_append (first rest : List Event) :
    ungrouped (first ++ rest) = ungrouped first ++ ungrouped rest := by
  simp [ungrouped]

theorem ungrouped_of_plain {events : List Event}
    (h : ∀ event ∈ events, event.isParenthesis = false) :
    ungrouped events = events.map (Event.revise Expr.ungroup) := by
  unfold ungrouped
  rw [List.filter_eq_self.mpr]
  intro event hm
  simp [h event hm]

theorem ungrouped_of_parentheses {events : List Event}
    (h : ∀ event ∈ events, event.isParenthesis = true) : ungrouped events = [] := by
  unfold ungrouped
  rw [List.filter_eq_nil_iff.mpr]
  · rfl
  · intro event hm
    simp [h event hm]

namespace Node

variable {n : Node}

/-- Whether the node is a pair of parentheses. -/
def isGrouped : Node → Bool
  | expr e => e.isGrouped
  | _ => false

/-- Apart from parentheses nothing happens at a node that does not happen without them. -/
theorem children_ungroup (h : n.isGrouped = false) :
    (n.revise Expr.ungroup).children = n.children.map (revise Expr.ungroup) := by
  cases n with
  | expr e =>
    cases e with
    | grouped id inner => cases h
    | call id node callee args | format id token args =>
      simp only [revise, children, Expr.ungroup, Expr.parts, Expr.ungroupList_eq_map, List.map_map]
      rfl
    | _ => rfl
  | _ => exact children_revise _ rfl

theorem opening_ungroup (h : n.isGrouped = false) :
    (n.revise Expr.ungroup).opening = n.opening.map (Event.revise Expr.ungroup) := by
  cases n with
  | expr e =>
    cases e with
    | grouped id inner => cases h
    | call id node callee args =>
      simp [revise, opening, Expr.opening, Event.revise, Expr.ungroup, Expr.ungroupList_eq_map]
    | _ => rfl
  | _ => exact opening_revise _ rfl

theorem closing_ungroup (h : n.isGrouped = false) :
    (n.revise Expr.ungroup).closing = n.closing.map (Event.revise Expr.ungroup) := by
  cases n with
  | expr e =>
    cases e with
    | grouped id inner => cases h
    | call id node callee args | format id token args =>
      simp [revise, closing, Expr.closing, Event.revise, Expr.ungroup, Expr.ungroupList_eq_map]
    | _ => rfl
  | _ => exact closing_revise _ rfl

/-- All that a node does itself is about the node. -/
theorem isParenthesis_own {event : Event} (hm : event ∈ n.opening ++ n.closing) :
    event.isParenthesis = n.isGrouped := by
  cases n with
  | expr e =>
    cases e <;> grind [opening, closing, Expr.opening, Expr.closing, Event.isParenthesis, Event.expr?,
      isGrouped]
  | _ => grind [opening, closing, Event.isParenthesis, Event.expr?, isGrouped]

theorem events_ungroup_of_children (n : Node)
    (h : ∀ c ∈ n.children, (c.revise Expr.ungroup).events = ungrouped c.events) :
    (n.revise Expr.ungroup).events = ungrouped n.events := by
  have hinner : ungrouped (n.children.flatMap Node.events)
      = (n.children.map (revise Expr.ungroup)).flatMap Node.events := by
    generalize n.children = cs at h
    induction cs with
    | nil => rfl
    | cons c rest ih =>
      rw [List.forall_mem_cons] at h
      rw [List.flatMap_cons, ungrouped_append, List.map_cons, List.flatMap_cons, h.1, ih h.2]
  have hopening : ∀ event ∈ n.opening, event.isParenthesis = n.isGrouped :=
    fun event hm => isParenthesis_own (List.mem_append_left _ hm)
  have hclosing : ∀ event ∈ n.closing, event.isParenthesis = n.isGrouped :=
    fun event hm => isParenthesis_own (List.mem_append_right _ hm)
  rw [n.events_eq, ungrouped_append, ungrouped_append, hinner]
  -- either all own events of the node stay or all of them go
  cases hg : n.isGrouped with
  | false =>
    rw [hg] at hopening hclosing
    rw [(n.revise Expr.ungroup).events_eq, children_ungroup hg, opening_ungroup hg,
      closing_ungroup hg, ungrouped_of_plain hopening, ungrouped_of_plain hclosing]
  | true =>
    rw [hg] at hopening hclosing
    rw [ungrouped_of_parentheses hopening, ungrouped_of_parentheses hclosing, List.nil_append,
      List.append_nil]
    cases n with
    | expr e =>
      cases e with
      | grouped id inner => simp [children, Expr.parts, revise, Expr.ungroup]
      | _ => cases hg
    | _ => cases hg

end Node

/-- **Without parentheses a walk meets the same events**, except those of the parentheses. -/
theorem Program.events_ungroup (p : Program) : p.ungroup.events = ungrouped p.events :=
  p.node_induction (P := fun n => (n.revise Expr.ungroup).events = ungrouped n.events)
    Node.events_ungroup_of_children

/-! ## States -/

/-- The cells hold the same, except for the types of the nodes in `G`. -/
structure Annotations.Alike (G : NodeId → Prop) (a b : Annotations) : Prop where
  literals : a.literals = b.literals
  scopes : a.scopes = b.scopes
  symbols : a.symbols = b.symbols
  signatures : a.signatures = b.signatures
  types : ∀ n, ¬ G n → a.types.get n = b.types.get n

theorem Annotations.Alike.typeOf {G : NodeId → Prop} {a b : Annotations} (h : a.Alike G b) {e : Expr}
    (he : ¬ G e.id) : a.typeOf e = b.typeOf e := by
  cases e with
  | literal id token given => simp only [Annotations.typeOf, h.literals]
  | _ => exact h.types _ he

/-- The states are the same, except for the types of the nodes in `G`, for the bodies of functions
and for the log. -/
structure Pass.Alike (G : NodeId → Prop) (s t : Pass) : Prop where
  scopes : s.store.scopes = t.store.scopes
  symbols : s.store.symbols.map Symbol.bare = t.store.symbols.map Symbol.bare
  notes : s.store.notes.Alike G t.store.notes
  stack : s.stack = t.stack
  header : s.header = t.header
  function : s.function.map Function.bare = t.function.map Function.bare
  diagnostics : s.diagnostics = t.diagnostics

/-- Everything outside of `G`. -/
def Territory.outside (G : NodeId → Prop) : Territory where
  opens _ := True
  symbols _ := True
  signs _ := True
  types e := ¬ G e.id
  counts := True

namespace Pass.Alike

variable {G : NodeId → Prop} {s t : Pass}

theorem symbol (h : Alike G s t) (ref : SymbolRef) :
    (s.store.symbol ref).bare = (t.store.symbol ref).bare := by
  have hget := congrArg (fun symbols : Array Symbol => symbols[ref]?) h.symbols
  simp only [Array.getElem?_map] at hget
  simp only [Store.symbol, Array.getD_eq_getD_getElem?]
  have hmap := congrArg (fun x => Option.getD x (default : Symbol).bare) hget
  simpa only [Option.getD_map] using hmap

theorem name (h : Alike G s t) (ref : SymbolRef) :
    (s.store.symbol ref).name = (t.store.symbol ref).name := by
  have hname := congrArg Symbol.name (h.symbol ref)
  rwa [Symbol.name_bare, Symbol.name_bare] at hname

theorem interface (h : Alike G s t) (ref : SymbolRef) :
    (s.store.symbol ref).interface = (t.store.symbol ref).interface := by
  have hface := congrArg Symbol.interface (h.symbol ref)
  rwa [Symbol.interface_bare, Symbol.interface_bare] at hface

theorem describe (h : Alike G s t) (ref : SymbolRef) :
    (s.store.symbol ref).describe = (t.store.symbol ref).describe := by
  have hline := congrArg Symbol.describe (h.symbol ref)
  rwa [Symbol.describe_bare, Symbol.describe_bare] at hline

/-- Other scopes and symbols are put in. -/
theorem storing (h : Alike G s t) {u v : Store} (hscopes : u.scopes = v.scopes)
    (hsymbols : u.symbols.map Symbol.bare = v.symbols.map Symbol.bare)
    (hnotes : u.notes.Alike G v.notes) : Alike G (s.storing u) (t.storing v) :=
  ⟨hscopes, hsymbols, hnotes, h.stack, h.header, h.function, h.diagnostics⟩

theorem annotating (h : Alike G s t) {a b : Annotations} (hnotes : a.Alike G b) :
    Alike G (s.annotating a) (t.annotating b) :=
  h.storing h.scopes h.symbols hnotes

theorem changing (h : Alike G s t) (ref : SymbolRef) {f : Symbol → Symbol}
    (hf : ∀ x, (f x).bare = f x.bare) :
    Alike G (s.changing ref f) (t.changing ref f) := by
  refine h.storing h.scopes ?_ h.notes
  simp only [Store.modifySymbol]
  rw [map_modify hf, map_modify hf, h.symbols]

theorem addSymbol (h : Alike G s t) {x y : Symbol} (hxy : x.bare = y.bare) :
    Alike G (s.storing (s.store.addSymbol x)) (t.storing (t.store.addSymbol y)) := by
  refine h.storing h.scopes ?_ h.notes
  simp only [Store.addSymbol, Array.map_push, h.symbols, hxy]

theorem bindIn (h : Alike G s t) (scope : ScopeRef) (ref : SymbolRef) :
    Alike G (s.storing (s.store.bindIn scope ref)) (t.storing (t.store.bindIn scope ref)) := by
  refine h.storing ?_ h.symbols h.notes
  simp only [Store.bindIn, h.scopes, h.name ref]

theorem size (h : Alike G s t) : s.store.symbols.size = t.store.symbols.size := by
  have hsize := congrArg Array.size h.symbols
  simpa using hsize

theorem entering (h : Alike G s t) : Alike G s.entering t.entering := by
  refine ⟨?_, h.symbols, h.notes, ?_, h.header, h.function, h.diagnostics⟩
  · simp only [Pass.entering, Store.addScope, h.scopes, h.stack]
  · simp only [Pass.entering, h.scopes, h.stack]

theorem leaving (h : Alike G s t) (scope : ScopeRef) : Alike G (s.leaving scope) (t.leaving scope) := by
  refine ⟨h.scopes, h.symbols, h.notes, ?_, h.header, h.function, h.diagnostics⟩
  simp only [Pass.leaving, Store.scope, h.scopes, h.stack]

/-- **A check that keeps away from the cells of the parentheses does not notice them.** -/
theorem accord (G : NodeId → Prop) : Accord (.outside G) Eq Eq (Alike G) where
  header h := h.header
  function h := by
    have hface := congrArg (Option.map Function.face) h.function
    rwa [Option.map_map, Option.map_map] at hface
  active h := by
    rw [h.stack]
    exact Option.Rel.refl_eq _
  type h _ he := h.notes.typeOf he
  slot h n _ := by
    rw [h.notes.symbols]
    exact Option.Rel.refl_eq _
  opened h n _ := by rw [h.notes.scopes]
  signed h n _ := by rw [h.notes.signatures]
  name := by
    intro s t h a b hab
    subst hab
    exact h.name a
  interface := by
    intro s t h a b hab
    subst hab
    exact h.interface a
  find := by
    intro s t h a b hab name
    subst hab
    rw [Store.find?_congr h.scopes]
    exact Option.Rel.refl_eq _
  logged h _ _ := ⟨h.scopes, h.symbols, h.notes, h.stack, h.header, h.function, h.diagnostics⟩
  reporting h ds := by
    refine ⟨h.scopes, h.symbols, h.notes, h.stack, h.header, h.function, ?_⟩
    simp only [Pass.reporting, h.diagnostics]
  heading h _ := ⟨h.scopes, h.symbols, h.notes, h.stack, rfl, h.function, h.diagnostics⟩
  inside h _ := ⟨h.scopes, h.symbols, h.notes, h.stack, h.header, rfl, h.diagnostics⟩
  entering h := ⟨congrArg Array.size h.scopes, h.entering⟩
  leaving := by
    intro s t h a b _ _ hab
    subst hab
    exact h.leaving a
  adding h added _ := ⟨h.size, h.addSymbol rfl⟩
  binding := by
    intro s t h a b hab c d hcd
    subst hab hcd
    exact h.bindIn a c
  signing := by
    intro s t h c d hcd signature
    subst hcd
    exact h.changing c fun _ => rfl
  initing := by
    intro s t h c d hcd
    subst hcd
    exact h.changing c fun _ => rfl
  counting := by
    intro _ s t h c d hcd
    subst hcd
    exact h.changing c fun _ => rfl
  withScope := by
    intro s t h n _ a b hab
    subst hab
    refine h.annotating { h.notes with scopes := ?_ }
    simp only [Annotations.withScope, h.notes.scopes]
  withSymbol := by
    intro s t h n _ c d hcd
    subst hcd
    refine h.annotating { h.notes with symbols := ?_ }
    simp only [Annotations.withSymbol, h.notes.symbols]
  withSignature := by
    intro s t h n _ signature
    refine h.annotating { h.notes with signatures := ?_ }
    simp only [Annotations.withSignature, h.notes.signatures]
  withType := by
    intro s t h e _ _ type
    refine h.annotating { h.notes with types := ?_ }
    -- only here does `G` matter: its cells are the ones that may differ
    intro n hn
    simp only [Annotations.withType, Cells.get_put, h.notes.types n hn]

end Pass.Alike

/-! ## Events -/

/-- The expressions whose types are read at an event. -/
def Event.operands : Event → List Expr
  | .exitData d => d.init.toList
  | .exitAssign a => [a.value]
  | .exitReturn _ value => value.toList
  | .exitCall _ _ args => args
  | .exitBinary _ _ _ lhs rhs => [lhs, rhs]
  | .exitUnary _ _ _ operand | .exitCast _ _ operand | .exitGrouped _ operand => [operand]
  | _ => []

/-- The type of the expression is that of its content, however many parentheses are around it. -/
def Pass.Seen (s : Pass) (e : Expr) : Prop := s.store.notes.typeOf e = s.store.notes.typeOf e.ungroup

theorem Pass.seen_of_not_grouped (s : Pass) {e : Expr} (h : e.isGrouped = false) : s.Seen e :=
  (s.store.notes.typeOf_ungroup h).symm

namespace Pass

variable {α : Type} {s : Pass}

theorem run_typeOf_bind (e : Expr) (k : Option Ty → PassM α) :
    (typeOf e >>= k).run s = (k (s.store.notes.typeOf e)).run s := rfl

theorem run_seen_bind {e : Expr} (h : s.Seen e) (k : Option Ty → PassM α) :
    (typeOf e >>= k).run s = (typeOf e.ungroup >>= k).run s := by
  rw [run_typeOf_bind, run_typeOf_bind, h]

theorem run_named_bind (token : Token) {k k' : Ty → PassM α}
    (h : ∀ type, (k type).run s = (k' type).run s) :
    (ofExcept (typeNamed token) >>= k).run s = (ofExcept (typeNamed token) >>= k').run s := by
  unfold typeNamed
  cases token.type? with
  | none => rfl
  | some type => exact h type

theorem checkInit_ungroup {d : DataDef} (h : ∀ e ∈ d.init, s.Seen e) :
    (checkInit d).run s = (checkInit (d.revise Expr.ungroup)).run s := by
  unfold checkInit
  refine run_named_bind d.decl.type ?_
  intro target
  obtain ⟨decl, init⟩ := d
  by_cases hnothing : target = .nothing
  · simp only [if_pos hnothing]
  · simp only [if_neg hnothing]
    cases init with
    | none => rfl
    | some init => exact run_seen_bind (h init rfl) _

theorem checkAssign_ungroup {a : Assignment} (h : s.Seen a.value) :
    (checkAssign a).run s = (checkAssign (a.revise Expr.ungroup)).run s := by
  unfold checkAssign
  simp only [symbolOf, bind_assoc, pure_bind, EStateM.run_bind, EStateM.run_get, Assignment.revise]
  cases s.store.notes.symbols.get a.id with
  | none => rfl
  | some ref => exact run_seen_bind h _

theorem checkReturn_ungroup (keyword : Token) {value : Option Expr} (h : ∀ e ∈ value, s.Seen e) :
    (checkReturn keyword value).run s = (checkReturn keyword (value.map Expr.ungroup)).run s := by
  unfold checkReturn
  simp only [EStateM.run_bind, EStateM.run_get]
  cases s.function with
  | none => rfl
  | some f =>
    refine run_named_bind f.returns ?_
    intro returns
    cases value with
    | none => rfl
    | some value =>
      by_cases hnothing : returns = .nothing
      · simp only [Option.map_some, if_pos hnothing]
      · simp only [Option.map_some, if_neg hnothing]
        exact run_seen_bind (h value rfl) _

theorem checkCall_ungroup {e : Expr} (callee : Identifier) {args : List Expr}
    (he : e.isGrouped = false) (h : ∀ arg ∈ args, s.Seen arg) :
    (checkCall e callee args).run s
      = (checkCall e.ungroup callee (args.map Expr.ungroup)).run s := by
  have hargs : (args.map Expr.ungroup).map s.store.notes.typeOf = args.map s.store.notes.typeOf := by
    rw [List.map_map]
    exact List.map_congr_left fun arg hm => (h arg hm).symm
  unfold checkCall
  simp only [symbolOf, bind_assoc, pure_bind, EStateM.run_bind, EStateM.run_get,
    Expr.nameNode_ungroup he, recordType_ungroup he]
  cases s.store.notes.symbols.get e.nameNode with
  | none => rfl
  | some ref => simp only [EStateM.run_bind, EStateM.run_get, hargs]

theorem typeBy_ungroup {e : Expr} (h : e.isGrouped = false) (position : Position)
    (checked : Except TypeError Checked) :
    typeBy e.ungroup position checked = typeBy e position checked := by
  unfold typeBy
  simp only [recordType_ungroup h]

/-- An event whose operands were seen may as well be about operands without parentheses. -/
theorem visit_ungroup {event : Event} (hplain : event.isParenthesis = false)
    (hf : ∀ f, event ≠ .enterFunction f) (hseen : ∀ e ∈ event.operands, s.Seen e) :
    (visit event).run s = (visit (event.revise Expr.ungroup)).run s := by
  unfold visit
  -- what an event does depends on its operands through their types alone, and those are the types
  -- of what stands in the parentheses
  cases event with
  | enterFunction f => exact absurd rfl (hf f)
  | enterBlock b =>
    simp only [Event.revise, Block.id_revise, Block.position_revise]
  | exitData d => exact checkInit_ungroup (by simpa [Event.operands] using hseen)
  | exitAssign a => exact checkAssign_ungroup (by simpa [Event.operands] using hseen)
  | exitReturn keyword value =>
    exact checkReturn_ungroup keyword (by simpa [Event.operands] using hseen)
  | exitCall e callee args => exact checkCall_ungroup callee hplain hseen
  | exitLiteral e token => exact run_seen_bind (s.seen_of_not_grouped hplain) _
  | enterVariable e name | enterCall e callee args =>
    simp only [Event.revise, Expr.nameNode_ungroup hplain]
  | exitVariable e name =>
    simp only [Event.revise, Expr.nameNode_ungroup hplain, recordType_ungroup hplain]
  | exitBinary e op token lhs rhs =>
    have hl : s.Seen lhs := hseen lhs (by simp [Event.operands])
    have hr : s.Seen rhs := hseen rhs (by simp [Event.operands])
    simp only [Event.revise, typeBy_ungroup hplain]
    rw [run_seen_bind hl, run_typeOf_bind, run_typeOf_bind]
    cases s.store.notes.typeOf lhs.ungroup with
    | none => rfl
    | some left => exact run_seen_bind hr _
  | exitUnary e op token operand =>
    simp only [Event.revise, typeBy_ungroup hplain]
    exact run_seen_bind (hseen operand (by simp [Event.operands])) _
  | exitCast e target operand =>
    simp only [Event.revise, typeBy_ungroup hplain]
    refine run_named_bind target ?_
    intro type
    exact run_seen_bind (hseen operand (by simp [Event.operands])) _
  | exitGrouped e inner =>
    simp only [Event.revise, recordType_ungroup hplain]
    exact run_seen_bind (hseen inner (by simp [Event.operands])) _
  | exitFormat e token args => simp only [Event.revise, recordType_ungroup hplain]
  | _ => rfl

end Pass

namespace Pass.Alike

variable {G : NodeId → Prop}

/-- The symbols of a function differ in nothing but the body. -/
theorem declareFunction (f : Function) :
    Tandem sameName (Alike G) (fun _ _ => True) (declareFunction f)
      (declareFunction (f.revise Expr.ungroup)) := by
  intro s t h
  have hconcord := (accord G).concord
  have hheader := h.header.symm
  cases hs : s.header with
  | some unfinished =>
    rw [hs] at hheader
    unfold Pass.declareFunction
    rw [EStateM.run_bind, EStateM.run_bind, EStateM.run_get, EStateM.run_get]
    dsimp only
    rw [hs, hheader]
    exact ⟨.nestedSignature _ _, h⟩
  | none =>
    rw [hs] at hheader
    rw [declareFunction_eq f hs, declareFunction_eq (f.revise Expr.ungroup) hheader]
    refine (Tandem.typeNamed f.returns).bind ?_ s t h
    intro returns _ hreturns
    subst hreturns
    intro s t h
    have hadded := h.addSymbol (x := .ofFunction f returns)
      (y := .ofFunction (f.revise Expr.ungroup) returns) rfl
    refine ((hconcord.bindAt (n := 0) (.function f.name.name) trivial h.size).bind ?_) _ _ hadded
    intro _ _ _
    refine (Tandem.change ?_).bind fun _ _ _ => Tandem.value trivial
    intro s t h
    exact hconcord.heading (n := 0) h (some _)

theorem enterFunction (f : Function) :
    Lockstep (Alike G) (fun _ _ => True) (visit (.enterFunction f))
      (visit ((Event.enterFunction f).revise Expr.ungroup)) := by
  have hconcord := (accord G).concord
  apply Tandem.lockstep
  unfold Pass.visit
  refine (declareFunction f).bind fun _ _ _ => (hconcord.openScope (n := 0) _ _).bind fun a b hab => ?_
  refine (hconcord.recordScope (n := 0) (.scopeOf f.name.name) trivial hab).bind fun _ _ _ => ?_
  apply Tandem.change
  intro s t h
  exact ⟨h.scopes, h.symbols, h.notes, h.stack, h.header, rfl, h.diagnostics⟩

end Pass.Alike

/-- Where all is outside of `G` except parentheses, an event without parentheses stays outside. -/
theorem Event.Within.ungroup {T : Territory} {G : NodeId → Prop}
    (hG : ∀ e, T.types e → ¬ G e.ungroup.id) {event : Event} (hplain : event.isParenthesis = false)
    (hw : event.Within T) : (event.revise Expr.ungroup).Within (.outside G) := by
  have hown : ∀ {e : Expr}, e.isGrouped = false → T.types e ∧ e.isLiteral = false →
      (Territory.outside G).types e.ungroup ∧ e.ungroup.isLiteral = false :=
    fun hg h => ⟨hG _ h.1, (Expr.isLiteral_ungroup hg).trans h.2⟩
  cases event with
  | exitData d =>
    refine ⟨trivial, ?_⟩
    intro e he
    obtain ⟨init, hinit, rfl⟩ := Option.map_eq_some_iff.mp he
    exact hG init (hw.2 init hinit)
  | exitReturn keyword value =>
    intro e he
    obtain ⟨x, hx, rfl⟩ := Option.map_eq_some_iff.mp he
    exact hG x (hw x hx)
  | exitAssign a => exact ⟨trivial, hG _ hw.2⟩
  | exitLiteral e token => exact hG e hw
  | exitVariable e name => exact ⟨trivial, hown hplain hw.2⟩
  | exitCall e callee args =>
    refine ⟨trivial, hown hplain hw.2.1, ?_⟩
    intro x hx
    obtain ⟨arg, harg, rfl⟩ := List.mem_map.mp hx
    exact hG arg (hw.2.2 arg harg)
  | exitBinary e op token lhs rhs => exact ⟨hown hplain hw.1, hG _ hw.2.1, hG _ hw.2.2⟩
  | exitUnary e op token operand => exact ⟨hown hplain hw.1, hG _ hw.2⟩
  | exitCast e target operand => exact ⟨hown hplain hw.1, hG _ hw.2⟩
  | exitGrouped e inner => exact ⟨hown hplain hw.1, hG _ hw.2⟩
  | exitFormat e token args => exact hown hplain hw
  | enterFunction f | exitParams f | enterAssign a | enterVariable e name | enterCall e callee args =>
    exact ⟨trivial, trivial⟩
  | _ => trivial

/-- **Two checks stay in step at an event that is not about parentheses**, if its operands were
seen. -/
theorem Pass.Alike.visit {T : Territory} {G : NodeId → Prop} (hG : ∀ e, T.types e → ¬ G e.ungroup.id)
    {event : Event} (hplain : event.isParenthesis = false) (hw : event.Within T) {s t : Pass}
    (hseen : ∀ e ∈ event.operands, s.Seen e) (h : Alike G s t) :
    Meet (Alike G) (fun _ _ => True) ((Pass.visit event).run s)
      ((Pass.visit (event.revise Expr.ungroup)).run t) := by
  by_cases hf : ∀ f, event ≠ .enterFunction f
  · rw [visit_ungroup hplain hf hseen]
    exact (accord G).visit (hw.ungroup hG hplain) s t h
  · simp only [Classical.not_forall, Classical.not_not] at hf
    obtain ⟨f, rfl⟩ := hf
    exact enterFunction f s t h

end Semant
