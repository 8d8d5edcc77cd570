import Semant.Proofs.Bindings
import Semant.Proofs.Scoping

/-!
# Scopes are laid out like the tree

The program, its functions and its blocks have scopes, and how these lie inside each other and what is
declared in each can be read off the tree: `Program.regions` lists it, by recursion on the tree and
without a walk. The check knows nothing of the tree's shape. It opens a scope at one event and leaves it
at another, keeps a number of the next scope and a single active one, and binds names wherever it happens
to be. That the two agree is the matter of this file.

Between them stands the list of events, of which `Scoping` has the declarations already (`declarationsIn`);
`regionsIn` adds the scopes. One induction over the tree then says what a part of the tree adds to both
(`Lays`): it leaves the open scopes as they were, declares what it says in the innermost of them, and
adds the regions inside it.
-/

set_option autoImplicit false

namespace Semant

/-! ## Regions of a tree -/

/-- A node with a scope: the node of the next scope around it, and what is declared in its own. -/
structure Region where
  node : NodeId
  around : Option NodeId
  declares : List Definition

mutual

/-- The regions inside a statement, in the order of the text. -/
def Stmt.regions (around : NodeId) : Stmt → List Region
  | .branch conditional => conditional.regions around
  | .whileLoop _ _ body | .doLoop _ body _ | .block body => body.regions around
  | _ => []

/-- The region of a block and those inside it. -/
def Block.regions (around : NodeId) : Block → List Region
  | .mk id _ body => ⟨id, some around, body.flatMap Stmt.declares⟩ :: Stmt.regionsOfList id body

def Stmt.regionsOfList (around : NodeId) : List Stmt → List Region
  | [] => []
  | s :: rest => s.regions around ++ Stmt.regionsOfList around rest

def Conditional.regions (around : NodeId) : Conditional → List Region
  | .mk _ _ body otherwise => body.regions around ++ otherwise.regions around

def Else.regions (around : NodeId) : Else → List Region
  | .none => []
  | .elseIf next => next.regions around
  | .block body => body.regions around

end

/-- The region of a function, in which its parameters are declared, and those of its body. -/
def Function.regions (around : NodeId) (f : Function) : List Region :=
  ⟨f.id, some around, f.params.map .data⟩ :: f.body.regions f.id

def Item.regions (around : NodeId) : Item → List Region
  | .function f => f.regions around
  | .start s => s.body.regions around
  | _ => []

/-- All regions of a program, the program's own first. -/
def Program.regions (p : Program) : List Region :=
  ⟨p.id, none, p.items.flatMap Item.declares⟩ :: p.items.flatMap (Item.regions p.id)

/-! ## Regions of a walk -/

/-- The scopes that some events open, each with the scope around it. The scopes in `outer` are open
before. -/
def regionsIn (outer : List NodeId) : List Event → List (NodeId × Option NodeId)
  | [] => []
  | event :: rest =>
    (event.opens?.map fun node => (node, outer.head?)).toList ++ regionsIn (event.scopes outer) rest

theorem regionsIn_append (outer : List NodeId) (first rest : List Event) :
    regionsIn outer (first ++ rest)
      = regionsIn outer first ++ regionsIn (first.foldl Event.scopes outer) rest := by
  induction first generalizing outer with
  | nil => rfl
  | cons event first ih => simp [regionsIn, ih]

theorem declarationsIn_append (outer : List NodeId) (first rest : List Event) :
    declarationsIn outer (first ++ rest)
      = declarationsIn outer first ++ declarationsIn (first.foldl Event.scopes outer) rest := by
  induction first generalizing outer with
  | nil => rfl
  | cons event first ih => simp [declarationsIn, ih]

namespace Outline

theorem regions_eq_step (o : Outline) (event : Event) :
    (o.step event).regions = o.regions
      ++ (event.opens?.map fun node => (node, (o.frames.map Frame.node).head?)).toList := by
  have hdeclare : ∀ d, (o.declare d).regions = o.regions := fun d => (declare_frame o d).1
  cases event with
  | enterFunction f =>
    have hnodes := congrArg List.head? (nodes_declare o (.function f))
    rw [List.head?_map, List.head?_map] at hnodes
    simp [Outline.step, Outline.opened, hdeclare, Event.opens?, hnodes]
  | enterDecl d | enterParam f d => simp [Outline.step, hdeclare, Event.opens?]
  | enterProgram p | enterBlock b => simp [Outline.step, Outline.opened, Event.opens?]
  | _ => exact (List.append_nil _).symm

theorem regions_eq_run (o : Outline) (events : List Event) :
    (o.run events).regions = o.regions ++ regionsIn (o.frames.map Frame.node) events := by
  induction events generalizing o with
  | nil => simp [regionsIn]
  | cons event rest ih =>
    rw [run_cons, ih, regions_eq_step, nodes_step, List.append_assoc, regionsIn]

end Outline

/-! ## Parts of a tree -/

/-- Nothing about scopes or declarations happens at the event. -/
structure Event.Quiet (event : Event) : Prop where
  opens : event.opens? = none
  declares : event.declares? = none
  scopes : ∀ outer, event.scopes outer = outer

/-- What a part of the tree adds, seen from the scope of `node`: it declares in that scope, and brings
regions of its own. -/
structure Lays (node : NodeId) (outer : List NodeId) (events : List Event)
    (declares : List Definition) (regions : List Region) : Prop where
  restored : events.foldl Event.scopes (node :: outer) = node :: outer
  opened : regionsIn (node :: outer) events = regions.map fun r => (r.node, r.around)
  declared : ∀ x, x ∈ declarationsIn (node :: outer) events ↔
    (x.1 = node ∧ x.2 ∈ declares) ∨ ∃ r ∈ regions, x.1 = r.node ∧ x.2 ∈ r.declares

namespace Lays

variable {node : NodeId} {outer : List NodeId}

theorem nil : Lays node outer [] [] [] where
  restored := rfl
  opened := rfl
  declared := by simp [declarationsIn]

theorem append {first rest : List Event} {ds ds' : List Definition} {rs rs' : List Region}
    (h : Lays node outer first ds rs) (h' : Lays node outer rest ds' rs') :
    Lays node outer (first ++ rest) (ds ++ ds') (rs ++ rs') where
  restored := by rw [List.foldl_append, h.restored, h'.restored]
  opened := by rw [regionsIn_append, h.restored, h.opened, h'.opened, List.map_append]
  declared := by
    intro x
    rw [declarationsIn_append, h.restored, List.mem_append, h.declared, h'.declared]
    simp only [List.mem_append, or_and_right, exists_or, and_or_left]
    grind

theorem quiet {events : List Event} (h : ∀ event ∈ events, event.Quiet) :
    Lays node outer events [] [] := by
  induction events with
  | nil => exact nil
  | cons event rest ih =>
    have hfirst := h event List.mem_cons_self
    have hrest := ih fun other hm => h other (List.mem_cons_of_mem event hm)
    refine ⟨?_, ?_, ?_⟩
    · rw [List.foldl_cons, hfirst.scopes, hrest.restored]
    · rw [regionsIn, hfirst.opens, hfirst.scopes, hrest.opened]
      rfl
    · intro x
      rw [declarationsIn, Event.declaration?, hfirst.declares, hfirst.scopes]
      exact hrest.declared x

theorem event {event : Event} (h : event.Quiet) : Lays node outer [event] [] [] := by
  apply quiet
  intro other hm
  cases List.mem_singleton.mp hm
  exact h

/-- Events at which nothing happens, before a part and after it. -/
theorem around {first last : Event} {parts : List Event} {ds : List Definition} {rs : List Region}
    (h : Lays node outer parts ds rs) (hfirst : first.Quiet) (hlast : last.Quiet) :
    Lays node outer (first :: (parts ++ [last])) ds rs := by
  have hall := (event hfirst).append (h.append (event hlast))
  rw [List.append_nil, List.append_nil] at hall
  exact hall

/-- A declaration that opens nothing. -/
theorem declaration {event : Event} {d : Definition} (hd : event.declares? = some d)
    (ho : event.opens? = none) (hs : ∀ outer, event.scopes outer = outer) :
    Lays node outer [event] [d] [] where
  restored := hs _
  opened := by rw [regionsIn, ho]; rfl
  declared := by
    rintro ⟨home, definition⟩
    simp [declarationsIn, Event.declaration?, hd]

/-- A node with a scope of its own, between the events at which it is opened and left. -/
theorem scope {enter exit : Event} {id : NodeId} {inside : List Event} {ds : List Definition}
    {rs : List Region} (h : Lays id (node :: outer) inside ds rs) (hopens : enter.opens? = some id)
    (henter : ∀ outer, enter.scopes outer = id :: outer) (hexit : exit.opens? = none)
    (hnone : exit.declares? = none) (hleave : ∀ outer, exit.scopes outer = outer.tail) :
    Lays node outer (enter :: (inside ++ [exit])) enter.declares?.toList
      (⟨id, some node, ds⟩ :: rs) where
  restored := by
    rw [List.foldl_cons, List.foldl_append, henter, h.restored, List.foldl_cons, hleave]
    rfl
  opened := by
    rw [regionsIn, regionsIn_append, henter, h.restored, h.opened, hopens, regionsIn, hexit]
    simp [regionsIn]
  declared := by
    rintro ⟨home, definition⟩
    have hown : (∃ r ∈ (⟨id, some node, ds⟩ :: rs : List Region),
          home = r.node ∧ definition ∈ r.declares)
        ↔ (home = id ∧ definition ∈ ds) ∨ ∃ r ∈ rs, home = r.node ∧ definition ∈ r.declares := by
      simp
    have hlast : declarationsIn (id :: node :: outer) [exit] = [] := by
      simp [declarationsIn, Event.declaration?, hnone]
    have hfirst : (home, definition) ∈ (enter.declaration? (node :: outer)).toList
        ↔ home = node ∧ definition ∈ enter.declares?.toList := by
      unfold Event.declaration?
      cases enter.declares? with
      | none => simp
      | some d => simp
    rw [declarationsIn, declarationsIn_append, henter, h.restored, hlast, List.append_nil,
      List.mem_append, h.declared, hown, hfirst]

end Lays

/-! ## The induction over the tree -/

theorem Expr.quiet_of_inner {e : Expr} (h : ∀ event ∈ e.inner, event.Quiet) :
    ∀ event ∈ e.events, event.Quiet := by
  have hopening : ∀ event ∈ e.opening, event.Quiet := by
    cases e with
    | var id node name | call id node callee args =>
      intro event hm
      cases List.mem_singleton.mp hm
      exact ⟨rfl, rfl, fun _ => rfl⟩
    | _ =>
      intro event hm
      cases hm
  have hclosing : e.closing.Quiet := by
    cases e <;> exact ⟨rfl, rfl, fun _ => rfl⟩
  intro event hm
  rw [e.events_eq] at hm
  simp only [List.mem_append, List.mem_cons, List.not_mem_nil, or_false] at hm
  rcases hm with rfl | hm | hm | rfl | rfl
  · exact ⟨rfl, rfl, fun _ => rfl⟩
  · exact hopening event hm
  · exact h event hm
  · exact hclosing
  · exact ⟨rfl, rfl, fun _ => rfl⟩

mutual

theorem Expr.quiet : ∀ e : Expr, ∀ event ∈ e.events, event.Quiet
  | .literal .. | .var .. => Expr.quiet_of_inner fun _ hm => nomatch hm
  | .call _ _ _ args => Expr.quiet_of_inner (Expr.quietList args)
  | .binary _ _ _ lhs rhs =>
    Expr.quiet_of_inner fun event hm => (List.mem_append.mp hm).elim (lhs.quiet event) (rhs.quiet event)
  | .unary _ _ _ operand => Expr.quiet_of_inner operand.quiet
  | .cast _ _ operand => Expr.quiet_of_inner operand.quiet
  | .grouped _ inner => Expr.quiet_of_inner inner.quiet
  | .format _ _ args => Expr.quiet_of_inner (Expr.quietList args)

theorem Expr.quietList : ∀ es : List Expr, ∀ event ∈ Expr.eventsOfList es, event.Quiet
  | [] => by simp [Expr.eventsOfList]
  | e :: rest => by
    intro event hm
    rcases List.mem_append.mp hm with hm | hm
    · exact e.quiet event hm
    · exact Expr.quietList rest event hm

end

theorem Expr.lays (e : Expr) (node : NodeId) (outer : List NodeId) :
    Lays node outer e.events [] [] :=
  .quiet e.quiet

theorem Expr.laysOption (e : Option Expr) (node : NodeId) (outer : List NodeId) :
    Lays node outer (Expr.eventsOfOption e) [] [] := by
  cases e with
  | none => exact .nil
  | some e => exact e.lays node outer

theorem DataDef.lays (d : DataDef) (node : NodeId) (outer : List NodeId) :
    Lays node outer d.events [.data d.decl] [] := by
  have hdecl : Lays node outer [.enterDecl d.decl] [.data d.decl] [] :=
    .declaration rfl rfl fun _ => rfl
  have hparts := hdecl.append (Expr.laysOption d.init node outer)
  exact hparts.around ⟨rfl, rfl, fun _ => rfl⟩ ⟨rfl, rfl, fun _ => rfl⟩

mutual

theorem Stmt.lays : ∀ (s : Stmt) (node : NodeId) (outer : List NodeId),
    Lays node outer s.events s.declares (s.regions node)
  | .data definition, node, outer => definition.lays node outer
  | .assign a, node, outer =>
    (a.value.lays node outer).around ⟨rfl, rfl, fun _ => rfl⟩ ⟨rfl, rfl, fun _ => rfl⟩
  | .expr value, node, outer => value.lays node outer
  | .branch conditional, node, outer => conditional.lays node outer
  | .whileLoop keyword cond body, node, outer =>
    ((Expr.laysOption cond node outer).append (body.lays node outer)).around
      ⟨rfl, rfl, fun _ => rfl⟩ ⟨rfl, rfl, fun _ => rfl⟩
  | .doLoop keyword body cond, node, outer => by
    have hparts := (body.lays node outer).append (Expr.laysOption cond node outer)
    simp only [List.append_nil] at hparts
    have hloop : Lays node outer (.enterDo keyword body cond :: (_ ++ [.exitDo keyword body cond]))
        _ _ := hparts.around ⟨rfl, rfl, fun _ => rfl⟩ ⟨rfl, rfl, fun _ => rfl⟩
    exact hloop
  | .ret keyword value, node, outer =>
    (Expr.laysOption value node outer).append (.event ⟨rfl, rfl, fun _ => rfl⟩)
  | .yield keyword value, node, outer =>
    (Expr.laysOption value node outer).append (.event ⟨rfl, rfl, fun _ => rfl⟩)
  | .brk keyword, node, outer | .cont keyword, node, outer | .inline keyword text, node, outer =>
    .event ⟨rfl, rfl, fun _ => rfl⟩
  | .block body, node, outer => body.lays node outer

theorem Block.lays : ∀ (b : Block) (node : NodeId) (outer : List NodeId),
    Lays node outer b.events [] (b.regions node)
  | .mk id _ body, node, outer =>
    (Stmt.laysList body id (node :: outer)).scope rfl (fun _ => rfl) rfl rfl fun _ => rfl

theorem Stmt.laysList : ∀ (body : List Stmt) (node : NodeId) (outer : List NodeId),
    Lays node outer (Stmt.eventsOfList body) (body.flatMap Stmt.declares)
      (Stmt.regionsOfList node body)
  | [], _, _ => .nil
  | s :: rest, node, outer => (s.lays node outer).append (Stmt.laysList rest node outer)

theorem Conditional.lays : ∀ (c : Conditional) (node : NodeId) (outer : List NodeId),
    Lays node outer c.events [] (c.regions node)
  | .mk _ cond body otherwise, node, outer =>
    (((cond.lays node outer).append (body.lays node outer)).append (otherwise.lays node outer)).around
      ⟨rfl, rfl, fun _ => rfl⟩ ⟨rfl, rfl, fun _ => rfl⟩

theorem Else.lays : ∀ (e : Else) (node : NodeId) (outer : List NodeId),
    Lays node outer e.events [] (e.regions node)
  | .none, _, _ => .nil
  | .elseIf next, node, outer => next.lays node outer
  | .block body, node, outer => body.lays node outer

end

theorem Function.laysParams (f : Function) (node : NodeId) (outer : List NodeId) :
    ∀ params : List Decl,
      Lays node outer (params.map (Event.enterParam f)) (params.map Definition.data) []
  | [] => .nil
  | d :: rest => by
    have hdecl : Lays node outer [.enterParam f d] [.data d] [] :=
      .declaration rfl rfl fun _ => rfl
    exact hdecl.append (f.laysParams node outer rest)

theorem Function.lays (f : Function) (node : NodeId) (outer : List NodeId) :
    Lays node outer f.events [.function f] (f.regions node) := by
  have hparams := f.laysParams f.id (node :: outer) f.params
  have hsigned : Lays f.id (node :: outer) [.exitParams f] [] [] :=
    .event ⟨rfl, rfl, fun _ => rfl⟩
  have hinside := hparams.append (hsigned.append (f.body.lays f.id (node :: outer)))
  simp only [List.append_nil, List.nil_append] at hinside
  have hall : Lays node outer (.enterFunction f :: (_ ++ [.exitFunction f])) [.function f] _ :=
    hinside.scope rfl (fun _ => rfl) rfl rfl fun _ => rfl
  rw [List.append_assoc] at hall
  exact hall

theorem Item.lays (item : Item) (node : NodeId) (outer : List NodeId) :
    Lays node outer item.events item.declares (item.regions node) := by
  cases item with
  | imports i => exact .event ⟨rfl, rfl, fun _ => rfl⟩
  | data definition => exact definition.lays node outer
  | function f => exact f.lays node outer
  | start s =>
    have hall : Lays node outer (.enterStart s :: (_ ++ [.exitStart s])) _ _ :=
      (s.body.lays node outer).around ⟨rfl, rfl, fun _ => rfl⟩ ⟨rfl, rfl, fun _ => rfl⟩
    exact hall

theorem Item.laysList (node : NodeId) (outer : List NodeId) : ∀ items : List Item,
    Lays node outer (items.flatMap Item.events) (items.flatMap Item.declares)
      (items.flatMap (Item.regions node))
  | [] => .nil
  | item :: rest => by
    simp only [List.flatMap_cons]
    exact (item.lays node outer).append (Item.laysList node outer rest)

/-! ## Programs -/

theorem Program.regionsIn_events (p : Program) :
    regionsIn [] p.events = p.regions.map fun r => (r.node, r.around) := by
  have hitems := Item.laysList p.id [] p.items
  have henter : Event.scopes [] (.enterProgram p) = [p.id] := rfl
  rw [Program.events, regionsIn, regionsIn_append, henter, hitems.opened, hitems.restored]
  simp [regionsIn, Event.opens?, Program.regions]

theorem Program.mem_declarationsIn (p : Program) (x : NodeId × Definition) :
    x ∈ declarationsIn [] p.events ↔ ∃ r ∈ p.regions, x.1 = r.node ∧ x.2 ∈ r.declares := by
  have hitems := Item.laysList p.id [] p.items
  have henter : Event.scopes [] (.enterProgram p) = [p.id] := rfl
  have hlast : declarationsIn [p.id] [.exitProgram p] = [] := rfl
  have hfirst : (Event.enterProgram p).declaration? [] = none := rfl
  rw [Program.events, declarationsIn, declarationsIn_append, henter, hitems.restored, hlast, hfirst,
    List.append_nil, Option.toList_none, List.nil_append, hitems.declared]
  simp [Program.regions]

/-- Regions come in the order in which a walk opens them. -/
theorem Program.map_node_regions (p : Program) :
    p.regions.map Region.node = p.events.filterMap Event.opens? := by
  have hnodes : ∀ (events : List Event) (outer : List NodeId),
      (regionsIn outer events).map Prod.fst = events.filterMap Event.opens? := by
    intro events
    induction events with
    | nil => intro outer; rfl
    | cons event rest ih =>
      intro outer
      rw [regionsIn, List.map_append, ih, List.filterMap_cons]
      cases event.opens? <;> rfl
  rw [← hnodes p.events [], p.regionsIn_events, List.map_map]
  rfl

theorem declares_of_mem {outer : List NodeId} {events : List Event} {x : NodeId × Definition}
    (h : x ∈ declarationsIn outer events) : ∃ event ∈ events, event.declares? = some x.2 := by
  induction events generalizing outer with
  | nil => cases h
  | cons event rest ih =>
    rcases List.mem_append.mp h with h | h
    · rw [Option.mem_toList, Event.declaration?] at h
      obtain ⟨d, hd, hx⟩ := Option.bind_eq_some_iff.mp h
      obtain ⟨node, -, rfl⟩ := Option.map_eq_some_iff.mp hx
      exact ⟨event, List.mem_cons_self, hd⟩
    · obtain ⟨other, hm, hd⟩ := ih h
      exact ⟨other, List.mem_cons_of_mem event hm, hd⟩

/-! ## Scopes of an analysis -/

/-- A scope is that of a region: the node has it, it lies inside the scope of the next node around,
and it binds what the declarations of the region stand for. -/
structure Store.Mirrors (store : Store) (scope : ScopeRef) (region : Region) : Prop where
  recorded : store.notes.scopes.get region.node = some scope
  parent : (store.scope scope).parent = region.around.bind store.notes.scopes.get
  enclosed : (store.scope scope).parent.isSome = region.around.isSome
  binds : ∀ name ref, (name, ref) ∈ (store.scope scope).bindings ↔
    ∃ d ∈ region.declares, d.name = name ∧ store.notes.symbols.get d.id = some ref
  named : ∀ name ref, (name, ref) ∈ (store.scope scope).bindings → (store.symbol ref).name = name

theorem Bindings.mem_moved {bindings : Bindings} {symbolBase : Nat} {name : String}
    {ref : SymbolRef} :
    (name, ref) ∈ bindings.moved symbolBase ↔
      ∃ place, symbolBase + place = ref ∧ (name, place) ∈ bindings := by
  simp only [Bindings.moved, List.mem_map, Prod.mk.injEq, Prod.exists]
  constructor
  · rintro ⟨n, place, hm, rfl, rfl⟩
    exact ⟨place, rfl, hm⟩
  · rintro ⟨place, rfl, hm⟩
    exact ⟨name, place, hm, rfl, rfl⟩

namespace Outline

/-- The outline of a whole program, with the state of the check that it describes. -/
structure Charts (o : Outline) (p : Program) (s : Pass) : Prop where
  describes : o.Describes s
  names : o.Scoped
  tidy : s.store.Tidy
  regions : o.regions = p.regions.map fun r => (r.node, r.around)
  declared : o.declared = declarationsIn [] p.events

namespace Charts

variable {o : Outline} {p : Program} {s : Pass} (h : o.Charts p s)

include h

theorem region {k : Nat} {r : Region} (hk : p.regions[k]? = some r) :
    o.regions[k]? = some (r.node, r.around) := by
  rw [h.regions, List.getElem?_map, hk]
  rfl

theorem recorded {k : Nat} {r : Region} (hk : p.regions[k]? = some r) :
    s.store.notes.scopes.get r.node = some k :=
  h.describes.recorded.mpr ⟨r.around, h.region hk⟩

/-- What is on record under the node of a region is what the region declares. -/
theorem declares_iff {k : Nat} {r : Region} (hk : p.regions[k]? = some r) {d : Definition} :
    (r.node, d) ∈ o.declared ↔ d ∈ r.declares := by
  rw [h.declared, p.mem_declarationsIn]
  constructor
  · rintro ⟨other, hm, hnode, hdecl⟩
    -- Two regions with one node would have one scope, so they are the same region.
    obtain ⟨j, hj⟩ := List.mem_iff_getElem?.mp hm
    have hsame := (h.recorded hk).symm.trans (hnode ▸ h.recorded hj)
    cases hsame
    cases hk.symm.trans hj
    exact hdecl
  · intro hdecl
    exact ⟨r, List.mem_of_getElem? hk, rfl, hdecl⟩

/-- A scope binds the declarations of its region that stand for themselves. -/
theorem mem_bindings {k : Nat} {r : Region} (hk : p.regions[k]? = some r) {name : String}
    {place : SymbolRef} :
    (name, place) ∈ (s.store.scope k).bindings ↔
      ∃ d ∈ r.declares, d.name = name ∧ (o.symbolOf d.id).map Entry.place = some place := by
  rw [(h.tidy k).mem_iff]
  have hbinds := h.describes.bindings (h.region hk) name place
  rw [Store.findLocal?] at hbinds
  rw [hbinds]
  constructor
  · rintro ⟨d, hdecl, hname, hsymbol⟩
    refine ⟨d, (h.declares_iff hk).mp (List.mem_of_getElem? hdecl), hname, ?_⟩
    rw [hsymbol]
    rfl
  · rintro ⟨d, hm, hname, hslot⟩
    obtain ⟨j, hj⟩ := List.mem_iff_getElem?.mp ((h.declares_iff hk).mpr hm)
    obtain ⟨rfl, hself⟩ := h.names.own_of_place hj hslot
    exact ⟨d, hj, hname, hself⟩

theorem parent {k : Nat} {r : Region} (hk : p.regions[k]? = some r) :
    (s.store.scope k).parent = r.around.bind s.store.notes.scopes.get ∧
      ∀ n, r.around = some n → ∃ j, s.store.notes.scopes.get n = some j := by
  refine ⟨h.describes.parent (h.region hk), ?_⟩
  intro n hn
  have hregion := List.mem_of_getElem? (h.region hk)
  rw [hn] at hregion
  obtain ⟨next, hnext⟩ := h.names.around hregion
  obtain ⟨j, hj, -⟩ := h.describes.region_of_mem hnext
  exact ⟨j, hj⟩

/-! Now behind what a store had before. -/

/-- Where a name is declared or used, the cell holds the symbol that the node stands for. -/
theorem slot_grown (store : Store) {event : Event} (hm : event ∈ p.events) {n : NodeId}
    (hn : event.mentions? = some n) :
    (store.grown p s.store).notes.symbols.get n
      = ((o.symbolOf n).map Entry.place).map (store.symbols.size + ·) := by
  rw [store.symbols_grown s.store hm hn, h.describes.slots]

theorem declaration_grown (store : Store) {k : Nat} {r : Region} (hk : p.regions[k]? = some r)
    {d : Definition} (hd : d ∈ r.declares) :
    (store.grown p s.store).notes.symbols.get d.id
      = ((o.symbolOf d.id).map Entry.place).map (store.symbols.size + ·) := by
  have hdecl := (h.declares_iff hk).mpr hd
  rw [h.declared] at hdecl
  obtain ⟨event, hevent, hdeclares⟩ := declares_of_mem hdecl
  exact h.slot_grown store hevent (by simp [Event.mentions?, hdeclares])

theorem binds_grown (store : Store) {k : Nat} {r : Region} (hk : p.regions[k]? = some r)
    (name : String) (ref : SymbolRef) :
    (name, ref) ∈ ((store.grown p s.store).scope (store.scopes.size + k)).bindings ↔
      ∃ d ∈ r.declares, d.name = name ∧
        (store.grown p s.store).notes.symbols.get d.id = some ref := by
  rw [Store.scope_grown]
  refine Bindings.mem_moved.trans ⟨?_, ?_⟩
  · rintro ⟨place, rfl, hm⟩
    obtain ⟨d, hd, hname, hsymbol⟩ := (h.mem_bindings hk).mp hm
    refine ⟨d, hd, hname, ?_⟩
    rw [h.declaration_grown store hk hd, hsymbol]
    rfl
  · rintro ⟨d, hd, hname, hsymbol⟩
    rw [h.declaration_grown store hk hd] at hsymbol
    obtain ⟨place, hplace, rfl⟩ := Option.map_eq_some_iff.mp hsymbol
    exact ⟨place, rfl, (h.mem_bindings hk).mpr ⟨d, hd, hname, hplace⟩⟩

theorem named_grown (store : Store) {k : Nat} {r : Region} (hk : p.regions[k]? = some r)
    {name : String} {ref : SymbolRef}
    (hm : (name, ref) ∈ ((store.grown p s.store).scope (store.scopes.size + k)).bindings) :
    ((store.grown p s.store).symbol ref).name = name := by
  rw [Store.scope_grown] at hm
  obtain ⟨place, rfl, hplace⟩ := Bindings.mem_moved.mp hm
  have hfound := (h.tidy k).mem_iff.mp hplace
  obtain ⟨d, hdecl, hname, -⟩ := (h.describes.bindings (h.region hk) name place).mp hfound
  rw [Store.symbol_grown, Symbol.name_eq, (h.describes.symbol hdecl).1, hname]

theorem mirrors (store : Store) {k : Nat} {r : Region} (hk : p.regions[k]? = some r) :
    (store.grown p s.store).Mirrors (store.scopes.size + k) r := by
  obtain ⟨hparent, haround⟩ := h.parent hk
  have hlink := store.scope_grown p s.store k
  refine ⟨store.scopes_grown_some p s.store (h.recorded hk), ?_, ?_, h.binds_grown store hk,
    fun _ _ => h.named_grown store hk⟩
  · rw [hlink]
    simp only [Scope.moved, hparent]
    cases hr : r.around with
    | none => rfl
    | some n =>
      obtain ⟨j, hj⟩ := haround n hr
      simp [hj, store.scopes_grown_some p s.store hj]
  · rw [hlink]
    simp only [Scope.moved, hparent, Option.isSome_map]
    cases hr : r.around with
    | none => rfl
    | some n =>
      obtain ⟨j, hj⟩ := haround n hr
      simp [hj]

end Charts

end Outline

/-- An analysis that went through, with the outline of its program. -/
theorem Store.analyze_charts {store after : Store} {p : Program} {a : Analysis}
    (hn : p.nodes.Nodup) (h : store.analyze p = (.ok a, after)) :
    ∃ s, ((Outline.start store.notes.literals).run p.events).Charts p s ∧
      ((Outline.start store.notes.literals).run p.events).frames = [] ∧
      (Pass.check p).run (Pass.start store.notes.literals) = .ok () s ∧
      a = (s.above store).findings p ∧
      after = store.grown p s.store := by
  obtain ⟨s, hrun, hs, ha, hafter⟩ := Store.analyze_state hn h
  obtain ⟨ht, hl, -⟩ := Store.analyze_inv hn h
  refine ⟨s, ?_, p.frames_run _ hn ht, hrun, ha, hafter⟩
  exact
    { describes := hs
      names := ((Outline.Valid.start _).run (p.orderly _ hn ht)).names
      tidy := Pass.check_tidy hrun
      regions := (Outline.regions_eq_run _ _).trans p.regionsIn_events
      declared := Outline.declared_run _ _ }

/-- **The scopes of an analysis mirror the tree.** In a program in which no node occurs twice, number
the nodes with scopes in the order of the walk. Each of them has a scope of its own, the one with its
number, and these are all the scopes that the analysis makes. A scope lies inside the scope of the next
node around it, the program's inside none; and under each name it binds the symbol that the declaration
of the name directly in its region has in its cell, and nothing else. In the end the program's scope is
the root, which the analysis hands out, and no scope is active. -/
theorem analyze_scopes_mirror_tree {store after : Store} {p : Program} {a : Analysis}
    (hn : p.nodes.Nodup) (h : store.analyze p = (.ok a, after)) :
    p.regions.map Region.node = p.events.filterMap Event.opens? ∧
    after.scopes.size = store.scopes.size + p.regions.length ∧
    (∀ k region, p.regions[k]? = some region →
      after.Mirrors (store.scopes.size + k) region ∧
        (after.scope (store.scopes.size + k)).id = k) ∧
    (∀ region ∈ p.regions, ∀ other ∈ p.regions,
      after.notes.scopes.get region.node = after.notes.scopes.get other.node →
        region.node = other.node) ∧
    a.stack.root = some a.root ∧ a.stack.root = after.notes.scopes.get p.id ∧
    a.stack.active = none := by
  have hfound := Store.root_of_analyze h
  obtain ⟨s, hcharts, hframes, -, rfl, rfl⟩ := Store.analyze_charts hn h
  have hlength : s.store.scopes.size = p.regions.length := by
    rw [hcharts.describes.size, hcharts.regions, List.length_map]
  refine ⟨p.map_node_regions, ?_, ?_, ?_, hfound, ?_, ?_⟩
  · rw [Store.size_grown, hlength]
  · intro k region hk
    refine ⟨hcharts.mirrors store hk, ?_⟩
    have hlt : k < p.regions.length := (List.getElem?_eq_some_iff.mp hk).1
    rw [Store.scope_grown]
    refine hcharts.describes.number ?_
    rw [hcharts.regions, List.length_map]
    exact hlt
  · intro region hm other hm' hsame
    obtain ⟨k, hk⟩ := List.mem_iff_getElem?.mp hm
    obtain ⟨j, hj⟩ := List.mem_iff_getElem?.mp hm'
    rw [(hcharts.mirrors store hk).recorded, (hcharts.mirrors store hj).recorded] at hsame
    have hkj : k = j := Nat.add_left_cancel (Option.some.inj hsame)
    subst hkj
    cases hk.symm.trans hj
    rfl
  · -- the program is the first region of its own tree, so its scope has place zero before it is moved
    have hfirst : p.regions[0]? = some ⟨p.id, none, p.items.flatMap Item.declares⟩ := rfl
    have hroot : s.stack.root = some 0 := by
      rw [hcharts.describes.root, hcharts.regions]
      rfl
    refine Eq.trans ?_ (hcharts.mirrors store hfirst).recorded.symm
    exact congrArg (Option.map (store.scopes.size + ·)) hroot
  · have hactive : s.stack.active = none := by
      rw [hcharts.describes.active, hframes]
      rfl
    exact congrArg (Option.map (store.scopes.size + ·)) hactive

/-- A function with a loop in its body. Both declare the same name, one after the other. -/
def nesting : Program :=
  let at' (line column : UInt32) : Position := ⟨"nest.dk", line, column⟩
  let int (line column : UInt32) : Token := ⟨.integerType, "int", at' line column⟩
  { id := 0
    file := "nest.dk"
    items :=
      [.data { decl := ⟨1, false, int 1 1, ⟨"n", at' 1 5⟩⟩, init := none },
      .function
        { id := 2
          isIterator := false
          returns := int 2 1
          name := ⟨"f", at' 2 5⟩
          params := [⟨3, false, int 2 7, ⟨"a", at' 2 11⟩⟩]
          body := .mk 4 ⟨.leftBrace, "\x7b", at' 2 14⟩
            [.whileLoop ⟨.whileWord, "while", at' 3 3⟩ none
              (.mk 5 ⟨.leftBrace, "\x7b", at' 3 9⟩
                [.data { decl := ⟨6, false, int 4 5, ⟨"b", at' 4 9⟩⟩, init := none }]),
            .data { decl := ⟨7, false, int 6 3, ⟨"b", at' 6 7⟩⟩, init := none }] }] }

/-- The scope of the loop is the fourth. It lies inside that of the function's body and binds the
declaration in the loop, and the body binds the other one. -/
theorem nesting_mirrored :
    nesting.nodes.Nodup ∧ ∃ a after, ({} : Store).analyze nesting = (.ok a, after) ∧
      after.scopes.size = 4 ∧ after.notes.scopes.get 5 = some 3 ∧ (after.scope 3).parent = some 2 ∧
      after.notes.scopes.get 4 = some 2 ∧
      (∀ ref, ("b", ref) ∈ (after.scope 3).bindings ↔ after.notes.symbols.get 6 = some ref) ∧
      ∀ ref, ("b", ref) ∈ (after.scope 2).bindings ↔ after.notes.symbols.get 7 = some ref := by
  have hn : nesting.nodes.Nodup := by decide
  have hl : nesting.untyped? ({} : Store).notes.literals = none := rfl
  obtain ⟨s, -, -, hok⟩ := Store.analyze_ok hn (by decide) hl
  obtain ⟨-, hsize, hscope, -⟩ := analyze_scopes_mirror_tree hn hok
  obtain ⟨hloop, -⟩ := hscope 3 _ rfl
  obtain ⟨hbody, -⟩ := hscope 2 _ rfl
  refine ⟨hn, _, _, hok, hsize, hloop.recorded, hloop.parent.trans hbody.recorded, hbody.recorded,
    fun ref => (hloop.binds "b" ref).trans ⟨?_, ?_⟩, fun ref => (hbody.binds "b" ref).trans ⟨?_, ?_⟩⟩
  · rintro ⟨d, hd, -, hslot⟩
    cases List.mem_singleton.mp hd
    exact hslot
  · intro hslot
    exact ⟨_, List.mem_singleton.mpr rfl, rfl, hslot⟩
  · rintro ⟨d, hd, -, hslot⟩
    cases List.mem_singleton.mp hd
    exact hslot
  · intro hslot
    exact ⟨_, List.mem_singleton.mpr rfl, rfl, hslot⟩

end Semant
