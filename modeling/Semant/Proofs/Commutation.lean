import Mathlib.Data.List.Sort
import Semant.Proofs.Exchange
import Semant.Proofs.Grouping
import Semant.Proofs.Initialization

/-!
# The order of operands

An expression declares nothing and opens no scope. Reading it changes what is known about its own
nodes and nothing else (`Outline.run_expr`), and what it reports depends on the scopes around it and
on its own nodes (`Outline.Likewise`). So two expressions without a common node may be read in
either order, with the same outline in the end and the same reports from each (`Outline.run_comm`,
`Outline.journal_after`).

By induction over nodes, the outline of a program and the one of the program with exchanged operands
go together (`Node.Exchanges`). What is then left to show is that the store can be read off the
outline, as far as types and dumps are concerned, in a way that does not depend on the order of
events. References are a number of events, and a mark says that there is an event of some kind
(`Pass.refs_check`, `Pass.isInit_check`).
-/

set_option autoImplicit false

namespace Semant

/-! ## Expressions -/

theorem Node.isExpr_of_mem {n c : Node} (h : n.isExpr = true) (hc : c ∈ n.children) :
    c.isExpr = true := by
  cases n with
  | expr e =>
    obtain ⟨part, -, rfl⟩ := List.mem_map.mp hc
    rfl
  | _ => cases h

/-- All events of an expression are about expressions. -/
theorem Expr.isSome_expr? (e : Expr) : ∀ event ∈ e.events, event.expr?.isSome := by
  refine Expr.node_induction
    (P := fun n => n.isExpr = true → ∀ event ∈ n.events, event.expr?.isSome) ?_ e rfl
  intro n ih hn event hm
  rw [n.events_eq, List.mem_append, List.mem_append] at hm
  rcases hm with hm | hm | hm
  · cases n with
    | expr e => cases e <;> grind [Node.opening, Expr.opening, Event.expr?]
    | _ => cases hn
  · obtain ⟨c, hc, hm⟩ := List.mem_flatMap.mp hm
    exact ih c hc (Node.isExpr_of_mem hn hc) event hm
  · cases n with
    | expr e => cases e <;> grind [Node.closing, Expr.closing, Event.expr?]
    | _ => cases hn

theorem Event.Within.operands {T : Territory} {event : Event} (h : event.Within T) :
    ∀ e ∈ event.operands, T.types e := by
  cases event <;> grind [Event.Within, Event.operands]

namespace Outline

/-- An event about an expression changes nothing but cells. -/
theorem step_expr (o : Outline) {event : Event} (h : event.expr?.isSome) :
    ∃ symbols types, o.step event = { o with symbols := symbols, types := types } := by
  cases event <;> first | exact ⟨_, _, rfl⟩ | cases h

theorem run_expr (o : Outline) {events : List Event} (h : ∀ event ∈ events, event.expr?.isSome) :
    ∃ symbols types, o.run events = { o with symbols := symbols, types := types } := by
  induction events generalizing o with
  | nil => exact ⟨o.symbols, o.types, rfl⟩
  | cons event rest ih =>
    rw [List.forall_mem_cons] at h
    obtain ⟨symbols, types, hstep⟩ := o.step_expr h.1
    obtain ⟨symbols', types', hrun⟩ := ih (o.step event) h.2
    refine ⟨symbols', types', ?_⟩
    rw [run_cons, hrun, hstep]

/-! ## What an expression depends on -/

/-- The outlines look the same from inside of expressions with nodes in `N`. -/
structure Likewise (N : NodeId → Prop) (a b : Outline) : Prop where
  literals : b.literals = a.literals
  frames : b.frames = a.frames
  symbols : ∀ n, N n → b.symbols.get n = a.symbols.get n
  types : ∀ n, N n → b.types.get n = a.types.get n

namespace Likewise

variable {N : NodeId → Prop} {a b : Outline} (h : Likewise N a b)

include h

theorem typeOf {e : Expr} (he : N e.id) : b.typeOf e = a.typeOf e := by
  cases e with
  | literal id token given => simp only [Outline.typeOf, h.literals]
  | _ => simp only [Outline.typeOf, h.types _ he]

theorem symbolOf {n : NodeId} (hn : N n) : b.symbolOf n = a.symbolOf n := by
  rw [Outline.symbolOf, h.symbols n hn, Outline.symbolOf]

theorem scope : b.scope = a.scope := by
  rw [Outline.scope, h.frames, Outline.scope]

theorem refer (node : NodeId) (name : Identifier) (use : Use) :
    Likewise N (a.refer node name use) (b.refer node name use) :=
  { h with
    symbols := by
      intro n hn
      simp only [Outline.refer, Cells.get_put, h.scope, h.symbols n hn] }

theorem settle (e : Expr) {type type' : Option Ty} (htype : type' = type) :
    Likewise N (a.settle e type) (b.settle e type') :=
  { h with
    types := by
      intro n hn
      simp only [Outline.settle, Cells.get_put, htype, h.types n hn] }

theorem question {event : Event} (hexpr : event.expr?.isSome)
    (hops : ∀ e ∈ event.operands, N e.id) : b.question event = a.question event := by
  cases event with
  | exitBinary e op token lhs rhs =>
    simp only [Outline.question, h.typeOf (hops lhs (by simp [Event.operands])),
      h.typeOf (hops rhs (by simp [Event.operands]))]
  | exitUnary e op token operand | exitCast e target operand =>
    simp only [Outline.question, h.typeOf (hops operand (by simp [Event.operands]))]
  | exitData d | exitAssign a | exitReturn keyword value => cases hexpr
  | _ => rfl

theorem remarks {event : Event} {T : Territory} (hexpr : event.expr?.isSome) (hw : event.Within T)
    (hsymbols : ∀ n, T.symbols n → N n) (hops : ∀ e ∈ event.operands, N e.id) :
    b.remarks event = a.remarks event := by
  cases event with
  | enterVariable e name | enterCall e name args =>
    simp only [Outline.remarks, Outline.unresolved, h.scope]
  | exitCall e callee args =>
    have hargs : args.map b.typeOf = args.map a.typeOf :=
      List.map_congr_left fun arg harg => h.typeOf (hops arg harg)
    simp only [Outline.remarks, Outline.misfit, h.symbolOf (hsymbols _ hw.1), hargs]
  | enterDecl d | enterParam f d | enterFunction f | enterAssign a | exitReturn keyword value =>
    cases hexpr
  | _ => rfl

/-- An event that only asks about nodes in `N` is the same for both, and they still look the same.
-/
theorem step {event : Event} {T : Territory} (hexpr : event.expr?.isSome) (hw : event.Within T)
    (hsymbols : ∀ n, T.symbols n → N n) (hops : ∀ e ∈ event.operands, N e.id) :
    b.reports event = a.reports event ∧ Likewise N (a.step event) (b.step event) := by
  have hquestion := h.question hexpr hops
  refine ⟨by rw [reports, reports, h.remarks hexpr hw hsymbols hops, hquestion], ?_⟩
  have hanswer : b.answer event = a.answer event := by rw [answer, answer, hquestion]
  cases event with
  | enterVariable e name => exact h.refer e.nameNode name .value
  | enterCall e callee args => exact h.refer e.nameNode callee .callee
  | exitVariable e name => exact h.settle e (by rw [h.symbolOf (hsymbols _ hw.1)])
  | exitCall e callee args => exact h.settle e (by rw [h.symbolOf (hsymbols _ hw.1)])
  | exitBinary e op token lhs rhs => exact h.settle e hanswer
  | exitUnary e op token operand => exact h.settle e hanswer
  | exitCast e target operand => exact h.settle e hanswer
  | exitGrouped e inner => exact h.settle e (h.typeOf (hops inner (by simp [Event.operands])))
  | exitFormat e token args => exact h.settle e rfl
  | enterExpr e | exitExpr e | exitLiteral e token => exact h
  | _ => cases hexpr

theorem run {events : List Event} {T : Territory} (hexpr : ∀ event ∈ events, event.expr?.isSome)
    (hw : ∀ event ∈ events, event.Within T) (hsymbols : ∀ n, T.symbols n → N n)
    (hops : ∀ event ∈ events, ∀ e ∈ event.operands, N e.id) :
    b.journal events = a.journal events ∧ Likewise N (a.run events) (b.run events) := by
  induction events generalizing a b with
  | nil => exact ⟨rfl, h⟩
  | cons event rest ih =>
    rw [List.forall_mem_cons] at hexpr hw hops
    obtain ⟨hreports, hstep⟩ := h.step hexpr.1 hw.1 hsymbols hops.1
    obtain ⟨hjournal, hrun⟩ := ih hstep hexpr.2 hw.2 hops.2
    refine ⟨?_, hrun⟩
    rw [journal, journal, hreports, hjournal]

end Likewise

/-- **An expression is read alike where its own nodes look the same.** -/
theorem Likewise.expr {a b : Outline} {e : Expr} (h : Likewise (· ∈ entered e.events) a b) :
    b.journal e.events = a.journal e.events ∧
      Likewise (· ∈ entered e.events) (a.run e.events) (b.run e.events) := by
  refine h.run e.isSome_expr? e.closed ?_ ?_
  · rintro n ⟨event, hm, hn⟩
    exact List.mem_filterMap.mpr ⟨event, hm, Event.entered?_of_mentions hn⟩
  · intro event hm operand hoperand
    have henter : .enterExpr operand ∈ e.events := (e.closed event hm).operands operand hoperand
    exact List.mem_filterMap.mpr ⟨_, henter, rfl⟩

/-- Other nodes look the same after an expression was read. -/
theorem likewise_after (o : Outline) (e : Expr) {N : NodeId → Prop}
    (hN : ∀ n, N n → n ∉ entered e.events) : Likewise N o (o.run e.events) := by
  obtain ⟨symbols, types, hrun⟩ := o.run_expr e.isSome_expr?
  have hagrees := fun n hn => o.agreesAt_of_not_mem e.grounded (hN n hn)
  exact ⟨by rw [hrun], by rw [hrun], fun n hn => (hagrees n hn).symbols,
    fun n hn => (hagrees n hn).types⟩

/-! ## Two expressions -/

section Pair

variable {lhs rhs : Expr} (hd : (entered lhs.events).Disjoint (entered rhs.events))

include hd

/-- What an expression reports does not depend on another one. -/
theorem journal_after (o : Outline) :
    (o.run lhs.events).journal rhs.events = o.journal rhs.events :=
  (o.likewise_after lhs fun _ hr hl => hd hl hr).expr.1

theorem agrees_of_mem (o : Outline) {n : NodeId} (hn : n ∈ entered lhs.events) :
    ((o.run lhs.events).run rhs.events).symbols.get n
        = ((o.run rhs.events).run lhs.events).symbols.get n ∧
      ((o.run lhs.events).run rhs.events).types.get n
        = ((o.run rhs.events).run lhs.events).types.get n := by
  have hfirst := (o.run lhs.events).agreesAt_of_not_mem rhs.grounded (fun hr => hd hn hr)
  have hlast := (o.likewise_after rhs fun _ hl hr => hd hl hr).expr.2
  exact ⟨hfirst.symbols.trans (hlast.symbols n hn).symm, hfirst.types.trans (hlast.types n hn).symm⟩

/-- **Two expressions may be read in either order.** -/
theorem run_comm (o : Outline) :
    (o.run lhs.events).run rhs.events = (o.run rhs.events).run lhs.events := by
  -- cell by cell: one that neither reads is as before, and one of the left operand does not notice
  -- the right one
  have hcells : ∀ n, ((o.run lhs.events).run rhs.events).symbols.get n
        = ((o.run rhs.events).run lhs.events).symbols.get n ∧
      ((o.run lhs.events).run rhs.events).types.get n
        = ((o.run rhs.events).run lhs.events).types.get n := by
    intro n
    by_cases hl : n ∈ entered lhs.events
    · exact agrees_of_mem hd o hl
    by_cases hr : n ∈ entered rhs.events
    · have hsame := agrees_of_mem (List.disjoint_symm hd) o hr
      exact ⟨hsame.1.symm, hsame.2.symm⟩
    · have hfirst := (o.agreesAt_of_not_mem lhs.grounded hl).trans
        ((o.run lhs.events).agreesAt_of_not_mem rhs.grounded hr)
      have hlast := (o.agreesAt_of_not_mem rhs.grounded hr).trans
        ((o.run rhs.events).agreesAt_of_not_mem lhs.grounded hl)
      exact ⟨hfirst.symbols.trans hlast.symbols.symm, hfirst.types.trans hlast.types.symm⟩
  -- reading an expression changes cells only, so equal cells make equal outlines
  obtain ⟨symbols, types, hleft⟩ := o.run_expr lhs.isSome_expr?
  obtain ⟨symbols₁, types₁, hright⟩ := o.run_expr rhs.isSome_expr?
  obtain ⟨symbols₂, types₂, hboth⟩ := (o.run lhs.events).run_expr rhs.isSome_expr?
  obtain ⟨symbols₃, types₃, hback⟩ := (o.run rhs.events).run_expr lhs.isSome_expr?
  rw [hleft] at hboth
  rw [hright] at hback
  rw [hleft, hright, hboth, hback] at hcells ⊢
  have hsymbols : symbols₂ = symbols₃ := Cells.ext fun n => (hcells n).1
  have htypes : types₂ = types₃ := Cells.ext fun n => (hcells n).2
  rw [hsymbols, htypes]

end Pair

/-! ## Nodes -/

/-- What some events report, without the wording. -/
def keys (o : Outline) (events : List Event) : List (Severity × Code × Position) :=
  ((o.journal events).flatMap Prod.snd).map Diagnostic.key

@[simp]
theorem keys_append (o : Outline) (first rest : List Event) :
    o.keys (first ++ rest) = o.keys first ++ (o.run first).keys rest := by
  simp [keys]

theorem Exchanged.run {S : NodeId → Bool} {o o' : Outline} (h : Exchanged S o o')
    (events : List Event) :
    Exchanged S (o.run events) (o'.run (events.map (Event.exchange S))) ∧
      o'.keys (events.map (Event.exchange S)) = o.keys events := by
  induction events generalizing o o' with
  | nil => exact ⟨h, rfl⟩
  | cons event rest ih =>
    obtain ⟨hrun, hkeys⟩ := ih (h.step event)
    refine ⟨hrun, ?_⟩
    simp only [keys, List.map_cons, journal, List.flatMap_cons, List.map_append, h.reports] at hkeys ⊢
    rw [hkeys]

end Outline

namespace Node

variable {S : NodeId → Bool}

/-- Reading the node with exchanged operands comes to the same as reading the node. -/
def Exchanges (S : NodeId → Bool) (n : Node) : Prop :=
  (entered n.events).Nodup → ∀ {o o' : Outline}, o.Exchanged S o' →
    (o.run n.events).Exchanged S (o'.run (n.revise (Expr.exchange S)).events) ∧
      (o'.keys (n.revise (Expr.exchange S)).events).Perm (o.keys n.events)

theorem exchanges_list {nodes : List Node} (h : ∀ c ∈ nodes, c.Exchanges S)
    (hn : (entered (nodes.flatMap Node.events)).Nodup) {o o' : Outline} (hx : o.Exchanged S o') :
    (o.run (nodes.flatMap Node.events)).Exchanged S
        (o'.run ((nodes.map (revise (Expr.exchange S))).flatMap Node.events)) ∧
      (o'.keys ((nodes.map (revise (Expr.exchange S))).flatMap Node.events)).Perm
        (o.keys (nodes.flatMap Node.events)) := by
  induction nodes generalizing o o' with
  | nil => exact ⟨hx, List.Perm.refl _⟩
  | cons c rest ih =>
    rw [List.forall_mem_cons] at h
    rw [List.flatMap_cons, entered_append, List.nodup_append] at hn
    obtain ⟨hfirst, hkeys⟩ := h.1 hn.1 hx
    obtain ⟨hlast, hkeys'⟩ := ih h.2 hn.2.1 hfirst
    simp only [List.map_cons, List.flatMap_cons, Outline.run_append, Outline.keys_append]
    exact ⟨hlast, hkeys.append hkeys'⟩

/-- The children of a node may be read in the order that they have when operands are exchanged. -/
theorem run_turned (S : NodeId → Bool) (n : Node)
    (hn : (entered (n.children.flatMap Node.events)).Nodup) (o : Outline) :
    o.run ((if n.swaps S then n.children.reverse else n.children).flatMap Node.events)
        = o.run (n.children.flatMap Node.events) ∧
      (o.keys ((if n.swaps S then n.children.reverse else n.children).flatMap Node.events)).Perm
        (o.keys (n.children.flatMap Node.events)) := by
  split
  · rename_i hswaps
    cases n with
    | expr e =>
      cases e with
      | binary id op token lhs rhs =>
        simp only [children, Expr.parts, List.map_cons, List.map_nil, List.reverse_cons,
          List.reverse_nil, List.nil_append, List.cons_append, List.flatMap_cons, List.flatMap_nil,
          List.append_nil, events] at hn ⊢
        rw [entered_append] at hn
        have hd := List.disjoint_of_nodup_append hn
        simp only [Outline.run_append, Outline.keys_append]
        refine ⟨(Outline.run_comm hd o).symm, ?_⟩
        simp only [Outline.keys, Outline.journal_after hd,
          Outline.journal_after (List.disjoint_symm hd)]
        exact List.perm_append_comm
      | _ => cases hswaps
    | _ => cases hswaps
  · exact ⟨rfl, List.Perm.refl _⟩

theorem exchanges_of_children (n : Node) (h : ∀ c ∈ n.children, c.Exchanges S) :
    n.Exchanges S := by
  intro hn o o' hx
  rw [n.events_eq, entered_append, entered_append, List.nodup_append] at hn
  have hinner := (List.nodup_append.mp hn.2.1).1
  have hturned : ∀ c ∈ if n.swaps S then n.children.reverse else n.children, c.Exchanges S := by
    intro c hc
    refine h c ?_
    split at hc
    · exact List.mem_reverse.mp hc
    · exact hc
  have hnodup : (entered ((if n.swaps S then n.children.reverse else n.children).flatMap
      Node.events)).Nodup := by
    refine (List.Perm.nodup_iff ?_).mpr hinner
    refine List.Perm.filterMap _ (List.Perm.flatMap_right _ ?_)
    split
    · exact List.reverse_perm _
    · exact List.Perm.refl _
  obtain ⟨hopening, hkeys⟩ := hx.run n.opening
  -- the children are exchanged in the turned order first, and then turned back
  obtain ⟨hchildren, hkeys'⟩ := exchanges_list hturned hnodup hopening
  obtain ⟨hsame, hperm⟩ := n.run_turned S hinner (o.run n.opening)
  rw [hsame] at hchildren
  obtain ⟨hclosing, hkeys''⟩ := hchildren.run n.closing
  rw [n.events_eq, (n.revise (Expr.exchange S)).events_eq, opening_exchange, closing_exchange,
    children_exchange]
  simp only [Outline.run_append, Outline.keys_append, hkeys, hkeys'']
  exact ⟨hclosing, ((hkeys'.trans hperm).append_right _).append_left _⟩

end Node

theorem Program.exchanges (S : NodeId → Bool) (p : Program) : (Node.program p).Exchanges S :=
  p.node_induction Node.exchanges_of_children

/-! ## Stores -/

@[simp]
theorem Event.refers?_exchange (S : NodeId → Bool) (event : Event) :
    (event.exchange S).refers? = event.refers? := by
  cases event with
  | exitBinary e op token lhs rhs =>
    rw [exchange]
    split <;> rfl
  | enterVariable e name | enterCall e callee args =>
    simp only [exchange, revise, refers?, Expr.nameNode_exchange]
  | _ => rfl

theorem Program.references_exchange (S : NodeId → Bool) (p : Program) :
    (p.exchange S).references.Perm p.references :=
  Program.filterMap_exchange (Event.refers?_exchange S)

/-- A list of bindings is known once all look-ups are. -/
theorem Bindings.Sorted.ext {a b : Bindings} (ha : a.Sorted) (hb : b.Sorted)
    (h : ∀ name ref, a.find? name = some ref ↔ b.find? name = some ref) : a = b := by
  have hirrefl : Std.Irrefl fun x y : String × SymbolRef => x.1 < y.1 :=
    ⟨fun x => String.lt_irrefl x.1⟩
  have hasymm : Std.Asymm fun x y : String × SymbolRef => x.1 < y.1 :=
    ⟨fun x y hxy hyx => String.lt_irrefl x.1 (String.lt_trans hxy hyx)⟩
  refine List.Pairwise.eq_of_mem_iff ha hb ?_
  intro x
  rw [ha.mem_iff, hb.mem_iff, h]

namespace Outline

variable {S : NodeId → Bool} {o o' : Outline} {s t : Pass}

namespace Exchanged

theorem place (h : Exchanged S o o') (n : NodeId) :
    (o'.symbolOf n).map Entry.place = (o.symbolOf n).map Entry.place := by
  rw [h.symbolOf]
  cases o.symbolOf n <;> rfl

theorem getElem?_declared (h : Exchanged S o o') {place : SymbolRef} {node : NodeId}
    {d : Definition} (hd : o.declared[place]? = some (node, d)) :
    o'.declared[place]? = some (node, d.revise (Expr.exchange S)) := by
  rw [h.declared, List.getElem?_map, hd]
  rfl

theorem symbolOf_self (h : Exchanged S o o') {place : SymbolRef} {d : Definition}
    (hself : o.symbolOf d.id = some ⟨place, d⟩) :
    o'.symbolOf (d.revise (Expr.exchange S)).id = some ⟨place, d.revise (Expr.exchange S)⟩ := by
  rw [Definition.id_revise, h.symbolOf, hself]
  rfl

theorem binds (h : Exchanged S o o') (hv : o.Scoped) (node : NodeId) (name : String)
    (ref : SymbolRef) : o'.Binds node name ref ↔ o.Binds node name ref := by
  constructor
  · intro hb
    obtain ⟨d', hd', hname, hself⟩ := hb
    rw [h.declared, List.getElem?_map, Option.map_eq_some_iff] at hd'
    obtain ⟨⟨home, d⟩, hd, heq⟩ := hd'
    cases heq
    rw [Definition.name_revise] at hname
    have hplace : (o.symbolOf d.id).map Entry.place = some ref := by
      rw [← h.place, ← d.id_revise (Expr.exchange S), hself]
      rfl
    refine ⟨d, hd, hname, ?_⟩
    rcases hv.symbolOf_own hd with hown | hown
    · exact hown
    · rw [hown] at hplace
      cases hplace
  · intro hb
    obtain ⟨d, hd, hname, hself⟩ := hb
    exact ⟨_, h.getElem?_declared hd, (d.name_revise _).trans hname, h.symbolOf_self hself⟩

theorem supplies (h : Exchanged S o o') (place : SymbolRef) (event : Event) :
    o'.Supplies place (event.exchange S) ↔ o.Supplies place event := by
  cases event with
  | enterParam f d => simp only [Event.exchange, Event.revise, Supplies, h.place]
  | exitData d =>
    simp only [Event.exchange, Event.revise, Supplies, DataDef.revise, h.place]
    cases d.init with
    | none => simp
    | some init => simp [h.typeOf]
  | exitAssign a =>
    simp only [Event.exchange, Event.revise, Supplies, Assignment.revise, h.typeOf, h.symbolOf]
    cases o.symbolOf a.id with
    | none => simp
    | some entry => simp [Entry.revise]
  | exitBinary e op token lhs rhs =>
    rw [Event.exchange]
    split <;> rfl
  | _ => rfl

/-- The same scopes are made. -/
theorem scopes (h : Exchanged S o o') {p q : Program} (hs : o.Charts p s) (ht : o'.Charts q t) :
    s.store.scopes = t.store.scopes := by
  have hscopeOf : ∀ node, t.store.notes.scopes.get node = s.store.notes.scopes.get node := by
    intro node
    apply Option.ext
    intro k
    rw [hs.describes.recorded, ht.describes.recorded, h.regions]
  have hscope : ∀ k, k < o.regions.length → s.store.scope k = t.store.scope k := by
    intro k hk
    obtain ⟨⟨node, around⟩, hregion⟩ : ∃ region, o.regions[k]? = some region :=
      ⟨_, List.getElem?_eq_getElem hk⟩
    have hregion' : o'.regions[k]? = some (node, around) := by rw [h.regions, hregion]
    have hid : (s.store.scope k).id = (t.store.scope k).id := by
      rw [hs.describes.number hk, ht.describes.number (h.regions ▸ hk)]
    have hparent : (s.store.scope k).parent = (t.store.scope k).parent := by
      rw [hs.describes.parent hregion, ht.describes.parent hregion', funext hscopeOf]
    have hbindings : (s.store.scope k).bindings = (t.store.scope k).bindings := by
      refine (hs.tidy k).ext (ht.tidy k) ?_
      intro name ref
      exact (hs.describes.bindings hregion name ref).trans
        ((h.binds hs.names node name ref).symm.trans (ht.describes.bindings hregion' name ref).symm)
    -- equal in all fields; there is no `ext` for scopes
    generalize s.store.scope k = x at *
    generalize t.store.scope k = y at *
    obtain ⟨id, parent, bindings⟩ := x
    obtain ⟨id', parent', bindings'⟩ := y
    cases hid
    cases hparent
    cases hbindings
    rfl
  have hsize : s.store.scopes.size = t.store.scopes.size := by
    rw [hs.describes.size, ht.describes.size, h.regions]
  apply Array.ext hsize
  intro k hk hk'
  have hsame := hscope k (hs.describes.size ▸ hk)
  simpa [Store.scope, Array.getD, hk, hk'] using hsame

end Exchanged

end Outline

section Check

variable {S : NodeId → Bool} {p : Program} {literals : Cells Ty} (hn : p.nodes.Nodup)
  (ht : ∀ token ∈ p.typeNames, token.type?.isSome) (hl : p.untyped? literals = none)

include hn

theorem Program.exchanged_run (S : NodeId → Bool) (literals : Cells Ty) :
    ((Outline.start literals).run p.events).Exchanged S
      ((Outline.start literals).run (p.exchange S).events) :=
  (p.exchanges S hn (.start S literals)).1

theorem Program.keys_exchange (S : NodeId → Bool) (literals : Cells Ty) :
    ((Outline.start literals).keys (p.exchange S).events).Perm
      ((Outline.start literals).keys p.events) :=
  (p.exchanges S hn (.start S literals)).2

include ht

theorem Program.orderly_exchange (S : NodeId → Bool) (literals : Cells Ty) :
    (Outline.start literals).Orderly (p.exchange S).events :=
  (p.exchange S).orderly literals (Program.nodup_exchange hn)
    fun token hm => ht token (Program.mem_typeNames_exchange.mp hm)

include hl

variable {s t : Pass} (hs : (Pass.check p).run (Pass.start literals) = .ok () s)
  (ht' : (Pass.check (p.exchange S)).run (Pass.start literals) = .ok () t)

include hs ht'

theorem Pass.refs_exchange (ref : SymbolRef) :
    (t.store.symbol ref).refs = (s.store.symbol ref).refs := by
  rw [Pass.refs_check (p.orderly literals hn ht) hl hs,
    Pass.refs_check (Program.orderly_exchange hn ht S literals) (Program.untyped?_exchange.mpr hl) ht',
    (p.references_exchange S).countP_eq]
  simp only [(Program.exchanged_run hn S literals).place]

variable {place : SymbolRef} {node : NodeId} {d : Definition}
  (hd : ((Outline.start literals).run p.events).declared[place]? = some (node, d))
  (hself : ((Outline.start literals).run p.events).symbolOf d.id = some ⟨place, d⟩)

include hd hself

theorem Pass.isInit_exchange :
    (t.store.symbol place).isInit = (s.store.symbol place).isInit := by
  have hx := Program.exchanged_run hn S literals
  rw [Bool.eq_iff_iff, Pass.isInit_check (p.orderly literals hn ht) hl hs hd hself,
    Pass.isInit_check (Program.orderly_exchange hn ht S literals) (Program.untyped?_exchange.mpr hl) ht'
      (hx.getElem?_declared hd) (hx.symbolOf_self hself)]
  simp only [(p.events_exchange S).mem_iff, List.mem_map, exists_exists_and_eq_and, hx.supplies]

theorem Pass.signature_exchange
    (hdescribes : ((Outline.start literals).run p.events).Describes s)
    (hdescribes' : ((Outline.start literals).run (p.exchange S).events).Describes t) :
    (t.store.symbol place).signature = (s.store.symbol place).signature := by
  have hx := Program.exchanged_run hn S literals
  cases d with
  | data decl =>
    rw [Pass.unsigned_check (p.orderly literals hn ht) hl hs hd,
      Pass.unsigned_check (Program.orderly_exchange hn ht S literals)
        (Program.untyped?_exchange.mpr hl) ht' (hx.getElem?_declared hd)]
  | function f =>
    rw [hdescribes.signature hd hself,
      hdescribes'.signature (hx.getElem?_declared hd) (hx.symbolOf_self hself), hx.signatures]
    rfl

/-- Nothing that can be seen of a bound symbol is changed. -/
theorem Pass.describe_exchange
    (hdescribes : ((Outline.start literals).run p.events).Describes s)
    (hdescribes' : ((Outline.start literals).run (p.exchange S).events).Describes t) :
    (s.store.symbol place).describe = (t.store.symbol place).describe := by
  have hx := Program.exchanged_run hn S literals
  have hrefs := Pass.refs_exchange hn ht hl hs ht' place
  have hinit := Pass.isInit_exchange hn ht hl hs ht' hd hself
  have hsignature := Pass.signature_exchange hn ht hl hs ht' hd hself hdescribes hdescribes'
  obtain ⟨hdef, htype⟩ := hdescribes.symbol hd
  obtain ⟨hdef', htype'⟩ := hdescribes'.symbol (hx.getElem?_declared hd)
  have hbare : (s.store.symbol place).bare = (t.store.symbol place).bare := by
    unfold Symbol.bare
    rw [hdef, hdef', htype, htype', hrefs, hinit, hsignature, Definition.type_revise]
    cases d <;> rfl
  rw [← Symbol.describe_bare, hbare, Symbol.describe_bare]

end Check

/-! ## Analyses -/

/-- Without the wording the diagnostics of a severity can still be counted. -/
theorem Diagnostics.length_ofSeverity {a b : Diagnostics}
    (h : (b.map Diagnostic.key).Perm (a.map Diagnostic.key)) (severity : Severity) :
    (b.ofSeverity severity).length = (a.ofSeverity severity).length := by
  have hcount : ∀ ds : Diagnostics, (ds.ofSeverity severity).length
      = (ds.map Diagnostic.key).countP fun key => key.1 = severity := by
    intro ds
    rw [List.countP_map, List.countP_eq_length_filter]
    rfl
  rw [hcount, hcount, h.countP_eq]

/-- Bound symbols are declarations that stand for themselves. -/
theorem Outline.Charts.of_mem_symbolsIn {o : Outline} {p : Program} {s : Pass} (h : o.Charts p s)
    {k : ScopeRef} {place : SymbolRef} (hm : place ∈ s.store.symbolsIn k) :
    ∃ node d, o.declared[place]? = some (node, d) ∧ o.symbolOf d.id = some ⟨place, d⟩ := by
  by_cases hk : k < s.store.scopes.size
  · exact h.mem_bound.mp (List.mem_flatMap.mpr ⟨k, List.mem_range.mpr hk, hm⟩)
  · -- There is no such scope, and nothing is bound in it.
    simp [Store.symbolsIn, Store.scope, Array.getD, hk] at hm

/-- An analysis goes through if all literals have types and all names of types name one. -/
theorem Store.analyze_ok_iff {store : Store} {p : Program} (hn : p.nodes.Nodup)
    (hl : p.untyped? store.notes.literals = none) :
    (∃ a after, store.analyze p = (.ok a, after)) ↔ ∀ token ∈ p.typeNames, token.type?.isSome := by
  constructor
  · intro hok
    obtain ⟨a, after, h⟩ := hok
    exact (Store.analyze_inv hn h).1
  · intro ht
    obtain ⟨s, -, -, h⟩ := Store.analyze_ok hn ht hl
    exact ⟨_, _, h⟩

/-- **The order of operands does not matter.** Exchange the operands of any binary nodes of a
program all of whose literals have types. The analysis goes through with the one if it does with the
other, that is, if every name of a type names one. Then every expression has the same type, the same
is reported at the same places up to the order and the wording, with as many errors and as many
warnings, and the dumps are the same. -/
theorem analyze_ignores_operand_order (store : Store) (S : NodeId → Bool) {p : Program}
    (hn : p.nodes.Nodup) (hl : p.untyped? store.notes.literals = none) :
    ((∃ a after, store.analyze p = (.ok a, after)) ↔
      ∀ token ∈ p.typeNames, token.type?.isSome) ∧
    ((∃ b after', store.analyze (p.exchange S) = (.ok b, after')) ↔
      ∃ a after, store.analyze p = (.ok a, after)) ∧
    ∀ a after b after', store.analyze p = (.ok a, after) →
      store.analyze (p.exchange S) = (.ok b, after') →
        (∀ e, .enterExpr e ∈ p.events → .enterExpr (e.exchange S) ∈ (p.exchange S).events ∧
          after'.notes.typeOf (e.exchange S) = after.notes.typeOf e) ∧
        (b.diagnostics.map Diagnostic.key).Perm (a.diagnostics.map Diagnostic.key) ∧
        b.diagnostics.errorCount = a.diagnostics.errorCount ∧
        b.diagnostics.warningCount = a.diagnostics.warningCount ∧
        b.errorCount = a.errorCount ∧ b.warningCount = a.warningCount ∧
        ∃ text, after.dump a = .ok text ∧ after'.dump b = .ok text := by
  have hn' : (p.exchange S).nodes.Nodup := Program.nodup_exchange hn
  have hl' : (p.exchange S).untyped? store.notes.literals = none := Program.untyped?_exchange.mpr hl
  refine ⟨Store.analyze_ok_iff hn hl, ?_, ?_⟩
  · rw [Store.analyze_ok_iff hn hl, Store.analyze_ok_iff hn' hl']
    simp only [Program.mem_typeNames_exchange]
  · intro a after b after' hok hok'
    have hx := Program.exchanged_run hn S store.notes.literals
    have ht := (Store.analyze_inv hn hok).1
    obtain ⟨-, -, hds, hjournal, hout⟩ := Store.analyze_outcome hn hok
    obtain ⟨-, -, hds', hjournal', hout'⟩ := Store.analyze_outcome hn' hok'
    have hkeys : (b.diagnostics.map Diagnostic.key).Perm (a.diagnostics.map Diagnostic.key) := by
      rw [hds, hds', hjournal, hjournal']
      exact Program.keys_exchange hn S store.notes.literals
    -- keys hold the severities, so both counts are read off them
    have herrors : b.diagnostics.errorCount = a.diagnostics.errorCount :=
      Diagnostics.length_ofSeverity hkeys .error
    have hwarnings : b.diagnostics.warningCount = a.diagnostics.warningCount :=
      Diagnostics.length_ofSeverity hkeys .warning
    obtain ⟨hcount, hcount'⟩ := Store.analyze_tallied hok
    obtain ⟨hother, hother'⟩ := Store.analyze_tallied hok'
    obtain ⟨s, hcharts, -, hs, rfl, rfl⟩ := Store.analyze_charts hn hok
    obtain ⟨t, hcharts', -, ht', rfl, rfl⟩ := Store.analyze_charts hn' hok'
    have hdump := Store.dump_congr hok hok' (hx.scopes hcharts hcharts') (by
      intro k ref hm
      obtain ⟨node, d, hd, hself⟩ := hcharts.of_mem_symbolsIn hm
      exact Pass.describe_exchange hn ht hl hs ht' hd hself hcharts.describes hcharts'.describes)
    have htext := Store.dump_analyzed hok
    refine ⟨?_, hkeys, herrors, hwarnings, by rw [hcount, hother, herrors],
      by rw [hcount', hother', hwarnings], _, htext, hdump ▸ htext⟩
    intro e he
    have he' := Program.enterExpr_exchange (S := S) he
    exact ⟨he', by rw [hout.types e he, hout'.types _ he', hx.typeOf]⟩

/-- `q + 1 < m` for a struct `q`, where nobody declared `m`. -/
def mismatched : Program :=
  { id := 0
    file := "order.dk"
    items :=
      [.data
        { decl := ⟨1, false, ⟨.identifier, "Point", ⟨"order.dk", 1, 1⟩⟩, ⟨"q", ⟨"order.dk", 1, 7⟩⟩⟩
          init := none },
      .start
        { keyword := ⟨.startWord, "start", ⟨"order.dk", 2, 1⟩⟩
          body := .mk 2 ⟨.leftBrace, "\x7b", ⟨"order.dk", 2, 7⟩⟩
            [.expr (.binary 3 .lt ⟨.lt, "<", ⟨"order.dk", 3, 9⟩⟩
              (.binary 4 .add ⟨.plus, "+", ⟨"order.dk", 3, 5⟩⟩ (.var 5 105 ⟨"q", ⟨"order.dk", 3, 3⟩⟩)
                (.literal 6 ⟨.integerLiteral, "1", ⟨"order.dk", 3, 7⟩⟩ (some .int)))
              (.var 7 107 ⟨"m", ⟨"order.dk", 3, 11⟩⟩))] }] }

/-- With both pairs of operands exchanged, the two mistakes are reported the other way round, and
one of them with its operands named the other way round. -/
theorem mismatched_exchanged :
    mismatched.nodes.Nodup ∧ mismatched.untyped? ({} : Store).notes.literals = none ∧
      ∃ a after b after', ({} : Store).analyze mismatched = (.ok a, after) ∧
        ({} : Store).analyze (mismatched.exchange fun n => n = 3 ∨ n = 4) = (.ok b, after') ∧
        b.diagnostics.map Diagnostic.message
          = ["symbol \"m\" not defined",
            "arithmetic operation not allowed: integer and Point are incompatible"] ∧
        (b.diagnostics.map Diagnostic.key).Perm (a.diagnostics.map Diagnostic.key) ∧
        a.diagnostics.errorCount = 2 ∧ b.diagnostics.errorCount = 2 ∧
        after.dump a = .ok "context #0\n  data Point q refs=1\n" ∧
        after'.dump b = .ok "context #0\n  data Point q refs=1\n" := by
  have hn : mismatched.nodes.Nodup := by decide
  have hl : mismatched.untyped? ({} : Store).notes.literals = none := rfl
  obtain ⟨hgoes, hboth, hsame⟩ :=
    analyze_ignores_operand_order {} (fun n => n = 3 ∨ n = 4) hn hl
  obtain ⟨a, after, hok⟩ := hgoes.mpr (by decide)
  obtain ⟨b, after', hok'⟩ := hboth.mpr ⟨a, after, hok⟩
  obtain ⟨-, hkeys, herrors, -, -, -, text, hdump, hdump'⟩ := hsame a after b after' hok hok'
  have htwo : (({} : Store).analyze mismatched).1.toOption.map (·.diagnostics.errorCount)
      = some 2 := by
    decide +kernel
  have hmessages : (({} : Store).analyze (mismatched.exchange fun n => n = 3 ∨ n = 4)).1.toOption.map
      (·.diagnostics.map Diagnostic.message)
        = some ["symbol \"m\" not defined",
          "arithmetic operation not allowed: integer and Point are incompatible"] := by
    decide +kernel
  have hdumped : after.dump a = .ok "context #0\n  data Point q refs=1\n" :=
    Store.dump_of_listings hok (by decide +kernel)
  rw [hok] at htwo
  rw [hok'] at hmessages
  have htwo := Option.some.inj htwo
  cases hdump.symm.trans hdumped
  exact ⟨hn, hl, a, after, b, after', hok, hok', Option.some.inj hmessages, hkeys, htwo,
    herrors.trans htwo, hdumped, hdump'⟩

end Semant
