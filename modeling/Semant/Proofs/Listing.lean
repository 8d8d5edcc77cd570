import Semant.Proofs.Dump
import Semant.Proofs.Nesting
import Semant.Proofs.Operations

/-!
# What a dump writes

A dump enters the scopes that were recorded on the nodes of a tree, whoever recorded them. It goes
through exactly if they lie inside each other as the nodes do, the outermost being the root of the stack
(`Store.Linked`), and then it has written the scopes one after the other. Unlike in `Dump`, nothing is
known here about how the scopes came about. So a dump may fail, and the lemmas come in pairs: what
a step writes if the scope of its node is linked, and that it fails if not.

What is kept along the walk is that the scopes of the open nodes are linked (`Store.Chained`). This is
why leaving a scope leads back to the scope of the next node around it.
-/

set_option autoImplicit false

namespace Semant

/-! ## The text of a scope -/

namespace Store

/-- The first line about a scope. -/
def heading (store : Store) (ref : ScopeRef) : String :=
  "context #" ++ toString (store.scopeId ref) ++
    match (store.scope ref).parent with
    | some parent => " (parent #" ++ toString (store.scopeId parent) ++ ")"
    | none => ""

/-- The lines about a scope: the heading, and a line for each symbol. -/
def listing (store : Store) (ref : ScopeRef) : String :=
  store.heading ref ++ "\n" ++
    String.join ((store.symbolsIn ref).map fun symbol =>
      "  " ++ (store.symbol symbol).describe ++ "\n")

/-- Nothing is bound in the scope. -/
def isEmptyScope (store : Store) (ref : ScopeRef) : Bool := (store.scope ref).bindings.isEmpty

/-- What a dump writes when it comes to a scope. -/
def listingUnlessEmpty (store : Store) (ref : ScopeRef) : String :=
  if store.isEmptyScope ref then "" else store.listing ref

/-- What a dump writes when it comes to a node. -/
def listingAt (store : Store) (node : NodeId) : String :=
  ((store.notes.scopes.get node).map store.listingUnlessEmpty).getD ""

/-- The scopes recorded on the nodes of a program, in the order of the nodes. -/
def scopesOf (store : Store) (p : Program) : List ScopeRef :=
  p.regions.filterMap fun region => store.notes.scopes.get region.node

/-- Those of them that bind something. -/
def listed (store : Store) (p : Program) : List ScopeRef :=
  (store.scopesOf p).filter fun ref => !store.isEmptyScope ref

/-- The text of a dump. -/
def listings (store : Store) (p : Program) : String :=
  String.join ((store.listed p).map store.listing)

theorem join_listingAt (store : Store) (regions : List Region) :
    String.join (regions.map fun region => store.listingAt region.node)
      = String.join (((regions.filterMap fun region => store.notes.scopes.get region.node).filter
          fun ref => !store.isEmptyScope ref).map store.listing) := by
  induction regions with
  | nil => rfl
  | cons region rest ih =>
    rw [List.map_cons, String.join_cons, ih, List.filterMap_cons]
    unfold listingAt
    cases store.notes.scopes.get region.node with
    | none => exact String.empty_append
    | some ref =>
      show store.listingUnlessEmpty ref ++ _ = _
      unfold listingUnlessEmpty
      cases hempty : store.isEmptyScope ref with
      | true => simp [hempty]
      | false => simp [hempty]

/-! ## Linked scopes -/

/-- The scope of a node lies where the node does: that of the outermost node is the root, and any other
lies directly inside the scope of the next node around it. -/
def Linked (store : Store) (root : ScopeRef) (node : NodeId) (around : Option NodeId) : Prop :=
  ∃ ref, store.notes.scopes.get node = some ref ∧
    match around with
    | none => ref = root
    | some outer =>
      ∃ next, store.notes.scopes.get outer = some next ∧ (store.scope ref).parent = some next

/-- The scopes of the open nodes are linked. The innermost comes first. -/
def Chained (store : Store) (root : ScopeRef) : List NodeId → Prop
  | [] => True
  | node :: outer => store.Linked root node outer.head? ∧ store.Chained root outer

end Store

/-- A walk over a program ends where it began. -/
theorem Program.scopes_events (p : Program) : p.events.foldl Event.scopes [] = [] := by
  have hitems := Item.laysList p.id [] p.items
  have henter : Event.scopes [] (.enterProgram p) = [p.id] := rfl
  rw [Program.events, List.foldl_cons, henter, List.foldl_append, hitems.restored]
  rfl

/-! ## Steps that write -/

namespace Pass

/-- The step goes through, adds this to the text and ends as stated. -/
def Writes (x : DumpM Unit) (d : Pass) (more : String) (post : Pass → Prop) : Prop :=
  ∀ text, ∃ d', (x.run text).run d = .ok ((), text ++ more) d' ∧ post d'

/-- The step stops with an error, whatever was written before. -/
def Fails (x : DumpM Unit) (d : Pass) : Prop :=
  ∀ text, ∃ e d', (x.run text).run d = .error e d'

section

variable {x y : DumpM Unit} {d : Pass} {text more : String} {mid post : Pass → Prop}

theorem Writes.bind (hx : Writes x d text mid) (hy : ∀ d', mid d' → Writes y d' more post) :
    Writes (x >>= fun _ => y) d (text ++ more) post := by
  intro before
  obtain ⟨d₁, hrun, hmid⟩ := hx before
  obtain ⟨d₂, hrun', hpost⟩ := hy d₁ hmid (before ++ text)
  refine ⟨d₂, ?_, hpost⟩
  rw [StateT.run_bind, EStateM.run_bind, hrun, ← String.append_assoc]
  exact hrun'

theorem Writes.mono (h : Writes x d text mid) (himp : ∀ d', mid d' → post d') :
    Writes x d text post := by
  intro before
  obtain ⟨d', hrun, hmid⟩ := h before
  exact ⟨d', hrun, himp d' hmid⟩

theorem Writes.nothing (h : post d) : Writes (pure ()) d "" post :=
  fun text => ⟨d, by rw [String.append_empty]; rfl, h⟩

theorem run_look {f : Pass → DumpM Unit} (before : String) :
    ((getThe Pass >>= f).run before).run d = ((f d).run before).run d := rfl

theorem Writes.look {f : Pass → DumpM Unit} (h : Writes (f d) d text post) :
    Writes (getThe Pass >>= f) d text post := h

theorem run_lift {α : Type} {step : PassM α} {f : α → DumpM Unit} {a : α} {d' : Pass}
    (h : step.run d = .ok a d') (before : String) :
    ((liftM step >>= f).run before).run d = ((f a).run before).run d' := by
  have hlift : (liftM step : DumpM α).run before
      = (do let a ← step; return (a, before) : PassM (α × String)) := rfl
  rw [StateT.run_bind, EStateM.run_bind, hlift, EStateM.run_bind, h]
  rfl

theorem Writes.lift {α : Type} {step : PassM α} {f : α → DumpM Unit} {a : α} {d' : Pass}
    (hrun : step.run d = .ok a d') (h : Writes (f a) d' text post) :
    Writes (liftM step >>= f) d text post := by
  intro before
  rw [run_lift hrun]
  exact h before

theorem Fails.stop {α : Type} {step : PassM α} {f : α → DumpM Unit} {e : InternalError} {d' : Pass}
    (hrun : step.run d = .error e d') : Fails (liftM step >>= f) d := by
  intro before
  refine ⟨e, d', ?_⟩
  have hlift : (liftM step : DumpM α).run before
      = (do let a ← step; return (a, before) : PassM (α × String)) := rfl
  rw [StateT.run_bind, EStateM.run_bind, hlift, EStateM.run_bind, hrun]

theorem Fails.look {f : Pass → DumpM Unit} (h : Fails (f d) d) : Fails (getThe Pass >>= f) d := h

theorem Fails.before (h : Fails x d) : Fails (x >>= fun _ => y) d := by
  intro before
  obtain ⟨e, d', hrun⟩ := h before
  refine ⟨e, d', ?_⟩
  rw [StateT.run_bind, EStateM.run_bind, hrun]

theorem Fails.after (hx : Writes x d text mid) (hy : ∀ d', mid d' → Fails y d') :
    Fails (x >>= fun _ => y) d := by
  intro before
  obtain ⟨d₁, hrun, hmid⟩ := hx before
  obtain ⟨e, d₂, hrun'⟩ := hy d₁ hmid (before ++ text)
  refine ⟨e, d₂, ?_⟩
  rw [StateT.run_bind, EStateM.run_bind, hrun]
  exact hrun'

end

theorem writes_dumpLine (line : String) (d : Pass) :
    Writes (dumpLine line) d (line ++ "\n") (Logs d) :=
  fun text => ⟨_, by rw [← String.append_assoc]; rfl, _, rfl⟩

theorem Logs.trans {s t u : Pass} (h : Logs s t) (h' : Logs t u) : Logs s u := by
  obtain ⟨log, rfl⟩ := h
  obtain ⟨log', rfl⟩ := h'
  exact ⟨log', rfl⟩

theorem writes_dumpLines {α : Type} (line : α → String) (as : List α) (d : Pass) :
    Writes (as.forM fun a => dumpLine (line a)) d
      (String.join (as.map fun a => line a ++ "\n")) (Logs d) := by
  induction as generalizing d with
  | nil => exact .nothing ⟨d.log, rfl⟩
  | cons a rest ih =>
    rw [List.map_cons, String.join_cons]
    exact (writes_dumpLine (line a) d).bind fun d' h => (ih d').mono fun _ => h.trans

theorem writes_dumpScope (ref : ScopeRef) (d : Pass) :
    Writes (dumpScope ref) d (d.store.listingUnlessEmpty ref) (Logs d) := by
  unfold dumpScope
  apply Writes.look
  dsimp only
  unfold Store.listingUnlessEmpty Store.isEmptyScope
  by_cases hempty : (d.store.scope ref).bindings.isEmpty = true
  · rw [if_pos hempty, if_pos hempty]
    exact .nothing ⟨d.log, rfl⟩
  · rw [if_neg hempty, if_neg hempty]
    exact (writes_dumpLine _ d).bind fun d' h => (writes_dumpLines _ _ d').mono fun _ => h.trans

/-! ## Where a dump stands -/

/-- Nothing but the active scope and the log is different. -/
def standing (s : Pass) (active : Option ScopeRef) (log : Array LogEntry) : Pass :=
  { s with stack := { s.stack with active }, log }

@[simp]
theorem store_standing (s : Pass) (active : Option ScopeRef) (log : Array LogEntry) :
    (s.standing active log).store = s.store := rfl

theorem standing_standing (s : Pass) (active other : Option ScopeRef)
    (log log' : Array LogEntry) : (s.standing active log).standing other log' = s.standing other log' :=
  rfl

theorem enterScope_run {ref : ScopeRef} {d : Pass} (ha : d.stack.active.isSome)
    (hp : (d.store.scope ref).parent = d.stack.active) :
    ∃ log, (enterScope ref).run d = .ok () (d.standing (some ref) log) := by
  simp only [enterScope, note, EStateM.run_bind, EStateM.run_get, ha, hp, decide_true,
    Bool.and_self, if_true, EStateM.run_modify]
  exact ⟨_, rfl⟩

theorem enterScope_refused {ref : ScopeRef} {d : Pass}
    (h : ¬ (d.stack.active.isSome ∧ (d.store.scope ref).parent = d.stack.active)) :
    (enterScope ref).run d = .error (.unexpectedScope (d.store.scopeId ref)) d := by
  have hcond : ¬ (d.stack.active.isSome && (d.store.scope ref).parent = d.stack.active) = true := by
    rwa [Bool.and_eq_true, decide_eq_true_eq]
  simp only [enterScope, EStateM.run_bind, EStateM.run_get]
  rw [if_neg hcond]
  rfl

theorem resetScope_run {root : ScopeRef} {d : Pass} (h : d.stack.root = some root) :
    resetScope.run d
      = .ok root (d.standing (some root) (d.log.push (.scopeReset (d.store.scopeId root)))) := by
  simp only [resetScope, note, standing, EStateM.run_bind, EStateM.run_get, h, EStateM.run_modify]
  rfl

/-- The dump that began at `s` stands where the nodes in `outer` are open. -/
structure Stands (s : Pass) (root : ScopeRef) (outer : List NodeId) (d : Pass) : Prop where
  state : ∃ log, d = s.standing (outer.head?.bind s.store.notes.scopes.get) log
  chained : s.store.Chained root outer

theorem Stands.start (s : Pass) (root : ScopeRef) : s.Stands root [] (s.standing none s.log) :=
  ⟨⟨s.log, rfl⟩, trivial⟩

theorem Stands.logs {s d d' : Pass} {root : ScopeRef} {outer : List NodeId}
    (h : s.Stands root outer d) (hl : Logs d d') : s.Stands root outer d' := by
  obtain ⟨log, rfl⟩ := h.state
  obtain ⟨log', rfl⟩ := hl
  exact ⟨⟨log', rfl⟩, h.chained⟩

section

variable {s d : Pass} {root : ScopeRef} {outer : List NodeId} {event : Event}

/-- The scope of the program is entered from anywhere. -/
theorem writes_enterProgram {p : Program} (hroot : d.stack.root = some root)
    (h : d.store.Linked root p.id none) :
    Writes (dumpVisit (.enterProgram p)) d (d.store.listingAt p.id) fun d' =>
      ∃ log, d' = d.standing (some root) log := by
  obtain ⟨_, hrec, rfl⟩ := h
  have hreset := resetScope_run hroot
  refine Writes.lift hreset (Writes.look ?_)
  dsimp only
  rw [store_standing, hrec]
  dsimp only
  rw [if_pos rfl, Store.listingAt, hrec]
  refine (writes_dumpScope _ _).mono ?_
  rintro d' ⟨log', rfl⟩
  exact ⟨log', rfl⟩

/-- A foreign scope at the program is found out. -/
theorem enterProgram_foreign {p : Program} {ref : ScopeRef} (hroot : d.stack.root = some root)
    (hrec : d.store.notes.scopes.get p.id = some ref) (hne : ref ≠ root) (text : String) :
    ∃ d', ((dumpVisit (.enterProgram p)).run text).run d
      = .error (.unexpectedScope (d.store.scopeId ref)) d' := by
  refine ⟨d.standing (some root) (d.log.push (.scopeReset (d.store.scopeId root))), ?_⟩
  rw [dumpVisit, run_lift (resetScope_run hroot), run_look]
  dsimp only
  rw [store_standing, hrec]
  dsimp only
  rw [if_neg hne]
  rfl

theorem fails_enterProgram {p : Program} (hroot : d.stack.root = some root)
    (h : ¬ d.store.Linked root p.id none) : Fails (dumpVisit (.enterProgram p)) d := by
  intro text
  cases hrec : d.store.notes.scopes.get p.id with
  | none =>
    refine ⟨.missingScope (.program p.file),
      d.standing (some root) (d.log.push (.scopeReset (d.store.scopeId root))), ?_⟩
    rw [dumpVisit, run_lift (resetScope_run hroot), run_look]
    dsimp only
    rw [store_standing, hrec]
    rfl
  | some ref =>
    exact ⟨_, enterProgram_foreign hroot hrec (fun heq => h ⟨ref, hrec, heq⟩) text⟩

/-- The scope of an open node is active. -/
theorem Stands.active {node : NodeId} (h : s.Stands root (node :: outer) d) :
    ∃ ref, s.store.notes.scopes.get node = some ref ∧ d.stack.active = some ref := by
  obtain ⟨log, rfl⟩ := h.state
  obtain ⟨ref, hrec, -⟩ := h.chained.1
  exact ⟨ref, hrec, hrec⟩

/-- Any other scope is entered from the scope of the next node around it. -/
theorem writes_dumpNode {node inner : NodeId} (subject : Subject)
    (hd : s.Stands root (inner :: outer) d) (h : s.store.Linked root node (some inner)) :
    Writes (dumpNode node subject) d (s.store.listingAt node)
      (s.Stands root (node :: inner :: outer)) := by
  obtain ⟨next, hnext, hactive⟩ := hd.active
  have hchained : s.store.Chained root (node :: inner :: outer) := ⟨h, hd.chained⟩
  obtain ⟨ref, hrec, around, haround, hparent⟩ := h
  cases hnext.symm.trans haround
  have hstate := hd.state
  have hstore : d.store = s.store := by
    obtain ⟨log, rfl⟩ := hstate
    rfl
  -- Entering checks that the scope lies inside the active one, and this is what being linked says.
  have hinside : d.stack.active.isSome := by rw [hactive]; rfl
  have hfits : (d.store.scope ref).parent = d.stack.active := by rw [hstore, hparent, hactive]
  obtain ⟨log, hrun⟩ := enterScope_run hinside hfits
  unfold dumpNode
  apply Writes.look
  rw [hstore, hrec]
  refine Writes.lift hrun ?_
  have hlisting : s.store.listingAt node = d.store.listingUnlessEmpty ref := by
    rw [Store.listingAt, hrec, hstore]
    rfl
  rw [hlisting]
  refine (writes_dumpScope ref _).mono fun d' hl => ?_
  refine Stands.logs ⟨?_, hchained⟩ hl
  obtain ⟨log', rfl⟩ := hstate
  refine ⟨log, ?_⟩
  rw [standing_standing, List.head?_cons, Option.bind_some, hrec]

theorem fails_dumpNode {node inner : NodeId} (subject : Subject)
    (hd : s.Stands root (inner :: outer) d) (h : ¬ s.store.Linked root node (some inner)) :
    Fails (dumpNode node subject) d := by
  obtain ⟨next, hnext, hactive⟩ := hd.active
  have hstore : d.store = s.store := by
    obtain ⟨log, rfl⟩ := hd.state
    rfl
  unfold dumpNode
  apply Fails.look
  rw [hstore]
  cases hrec : s.store.notes.scopes.get node with
  | none => exact fun text => ⟨_, _, rfl⟩
  | some ref =>
    apply Fails.stop
    apply enterScope_refused
    rintro ⟨-, hparent⟩
    rw [hstore, hactive] at hparent
    exact h ⟨ref, hrec, next, hnext, hparent⟩

/-- **One event at which a scope is opened.** -/
theorem dumpVisit_opens {node : NodeId} (ho : event.opens? = some node) (hf : event.Fits outer)
    (hroot : s.stack.root = some root) (hd : s.Stands root outer d) :
    (s.store.Linked root node outer.head? → Writes (dumpVisit event) d (s.store.listingAt node)
      (s.Stands root (event.scopes outer))) ∧
    (¬ s.store.Linked root node outer.head? → Fails (dumpVisit event) d) := by
  -- a function and a block lie inside something and are entered alike; only the program starts at
  -- the root
  have hinner : outer ≠ [] → ∀ subject,
      (s.store.Linked root node outer.head? → Writes (dumpNode node subject) d
        (s.store.listingAt node) (s.Stands root (node :: outer))) ∧
      (¬ s.store.Linked root node outer.head? → Fails (dumpNode node subject) d) := by
    intro hne subject
    cases outer with
    | nil => exact absurd rfl hne
    | cons inner outer => exact ⟨writes_dumpNode subject hd, fails_dumpNode subject hd⟩
  cases event with
  | enterProgram p =>
    cases ho
    have hnil : outer = [] := hf
    subst hnil
    obtain ⟨log, rfl⟩ : ∃ log, d = s.standing none log := hd.state
    have hroot' : (s.standing none log).stack.root = some root := hroot
    refine ⟨fun h => ?_, fails_enterProgram hroot'⟩
    refine (writes_enterProgram hroot' h).mono ?_
    rintro d' ⟨log', rfl⟩
    refine ⟨⟨log', ?_⟩, h, trivial⟩
    obtain ⟨ref, hrec, rfl⟩ := h
    rw [standing_standing, Event.scopes, List.head?_cons, Option.bind_some, hrec]
  | enterFunction f =>
    cases ho
    exact hinner hf _
  | enterBlock b =>
    cases ho
    exact hinner hf _
  | _ => cases ho

/-- **One event at which a scope is left.** The next one around it is that of the next open node. -/
theorem dumpVisit_closes (hc : event.closes = true) (hf : event.Fits outer)
    (houter : (s.store.scope root).parent = none) (hd : s.Stands root outer d) :
    Writes (dumpVisit event) d "" (s.Stands root (event.scopes outer)) := by
  have hleave : outer ≠ [] → Writes (liftM leaveScope >>= fun _ => pure ()) d ""
      (s.Stands root outer.tail) := by
    intro hne
    cases outer with
    | nil => exact absurd rfl hne
    | cons inner outer =>
      obtain ⟨ref, hrec, hactive⟩ := hd.active
      obtain ⟨log, hrun⟩ := leaveScope_run hactive
      refine Writes.lift hrun (.nothing ⟨?_, hd.chained.2⟩)
      obtain ⟨ref', hrec', hplace⟩ := hd.chained.1
      cases hrec.symm.trans hrec'
      obtain ⟨log', rfl⟩ := hd.state
      refine ⟨log, ?_⟩
      -- Leaving goes to the scope around, wherever that is recorded. It is the scope of the next open node.
      have hparent : (s.store.scope ref).parent = outer.head?.bind s.store.notes.scopes.get := by
        cases outer with
        | nil =>
          have hroot : ref = root := hplace
          rw [hroot, houter]
          rfl
        | cons next outer =>
          obtain ⟨around, haround, hparent⟩ := hplace
          rw [hparent, ← haround]
          rfl
      rw [List.tail_cons, ← hparent]
      rfl
  cases event with
  | exitProgram p => exact hleave hf
  | exitFunction f => exact hleave hf
  | exitBlock b => exact hleave hf
  | _ => cases hc

theorem dumpVisit_still (h : event.Still) : dumpVisit event = pure () := by
  cases event with
  | enterProgram p | enterFunction f | enterBlock b => cases h.opens
  | exitProgram p | exitFunction f | exitBlock b => cases h.closes
  | _ => rfl

/-- **Events of a dump.** They go through exactly if the scopes of the nodes that are opened are
linked. -/
theorem dumpEvents {events : List Event} (hn : Nested outer events)
    (hroot : s.stack.root = some root) (houter : (s.store.scope root).parent = none)
    (hd : s.Stands root outer d) :
    ((∀ x ∈ regionsIn outer events, s.store.Linked root x.1 x.2) →
      Writes (forM events dumpVisit) d
        (String.join ((regionsIn outer events).map fun x => s.store.listingAt x.1))
        (s.Stands root (events.foldl Event.scopes outer))) ∧
    ((¬ ∀ x ∈ regionsIn outer events, s.store.Linked root x.1 x.2) →
      Fails (forM events dumpVisit) d) := by
  induction events generalizing outer d with
  | nil => exact ⟨fun _ => .nothing hd, fun h => absurd (fun _ hm => nomatch hm) h⟩
  | cons event rest ih =>
    -- Either the first scope that is opened is not linked, and the dump stops there, or one of the others is.
    obtain ⟨hfits, hrest⟩ := hn
    rw [List.forM_cons, List.foldl_cons, regionsIn]
    cases ho : event.opens? with
    | some node =>
      rw [Option.map_some, Option.toList_some, List.singleton_append, List.map_cons,
        String.join_cons]
      obtain ⟨hwrites, hfails⟩ := dumpVisit_opens ho hfits hroot hd
      by_cases hlinked : s.store.Linked root node outer.head?
      · refine ⟨fun h => ?_, fun h => ?_⟩
        · refine (hwrites hlinked).bind fun d' hd' => (ih hrest hd').1 ?_
          exact fun x hx => h x (List.mem_cons_of_mem _ hx)
        · refine Fails.after (hwrites hlinked) fun d' hd' => (ih hrest hd').2 fun hall => h ?_
          intro x hx
          rcases List.mem_cons.mp hx with rfl | hx
          · exact hlinked
          · exact hall x hx
      · exact ⟨fun h => absurd (h (node, outer.head?) List.mem_cons_self) hlinked,
          fun _ => (hfails hlinked).before⟩
    | none =>
      have hstep : Writes (dumpVisit event) d "" (s.Stands root (event.scopes outer)) := by
        cases hc : event.closes with
        | true => exact dumpVisit_closes hc hfits houter hd
        | false =>
          have hstill : event.Still := ⟨ho, hc⟩
          rw [dumpVisit_still hstill, hstill.scopes]
          exact .nothing hd
      refine ⟨fun h => ?_, fun h => Fails.after hstep fun d' hd' => (ih hrest hd').2 h⟩
      have hall := hstep.bind fun d' hd' => (ih hrest hd').1 h
      rwa [String.empty_append] at hall

end

/-! ## Dumps -/

section

variable {s : Pass} {root : ScopeRef} {p : Program}

/-- It makes no difference which scope is active when a dump begins. -/
theorem dump_anywhere (p : Program) (hroot : s.stack.root = some root) :
    (dump p).run s = (dump p).run (s.standing none s.log) := by
  have hreset' : resetScope.run (s.standing none s.log) = _ := resetScope_run hroot
  rw [store_standing, standing_standing] at hreset'
  have hwalk : ((forM p.events dumpVisit : DumpM Unit).run "").run s
      = ((forM p.events dumpVisit : DumpM Unit).run "").run (s.standing none s.log) := by
    -- The first event goes to the outermost scope, so nothing is left of where the pass stood.
    rw [Program.events, List.forM_cons, dumpVisit, bind_assoc, run_lift (resetScope_run hroot),
      run_lift hreset']
    rfl
  unfold dump
  rw [Program.walk_eq_forM, EStateM.run_bind, EStateM.run_bind, hwalk]

theorem forall_linked_iff (p : Program) (store : Store) (root : ScopeRef) :
    (∀ x ∈ regionsIn [] p.events, store.Linked root x.1 x.2)
      ↔ ∀ region ∈ p.regions, store.Linked root region.node region.around := by
  rw [p.regionsIn_events, List.forall_mem_map]

/-- **A dump of scopes that are linked lists them.** -/
theorem dump_linked (hroot : s.stack.root = some root)
    (houter : (s.store.scope root).parent = none)
    (h : ∀ region ∈ p.regions, s.store.Linked root region.node region.around) :
    ∃ log, (dump p).run s = .ok (s.store.listings p) (s.standing none log) := by
  obtain ⟨d, hrun, hd⟩ := (dumpEvents p.nested hroot houter (.start s root)).1
    ((forall_linked_iff p s.store root).mpr h) ""
  obtain ⟨log, rfl⟩ := hd.state
  refine ⟨log, ?_⟩
  rw [p.scopes_events, p.regionsIn_events, List.map_map, String.empty_append] at hrun
  rw [dump_anywhere p hroot, dump, Program.walk_eq_forM, EStateM.run_bind, hrun]
  rw [Store.listings, Store.listed, Store.scopesOf, ← Store.join_listingAt]
  rfl

/-- A dump of scopes that are not linked fails. -/
theorem dump_unlinked (hroot : s.stack.root = some root)
    (houter : (s.store.scope root).parent = none)
    (h : ¬ ∀ region ∈ p.regions, s.store.Linked root region.node region.around) :
    ∃ e d, (dump p).run s = .error e d := by
  obtain ⟨e, d, hrun⟩ := (dumpEvents p.nested hroot houter (.start s root)).2
    (fun hall => h ((forall_linked_iff p s.store root).mp hall)) ""
  refine ⟨e, d, ?_⟩
  rw [dump_anywhere p hroot, dump, Program.walk_eq_forM, EStateM.run_bind, hrun]

/-- A dump through a foreign scope at the program fails at once. -/
theorem dump_foreign {ref : ScopeRef} (hroot : s.stack.root = some root)
    (hrec : s.store.notes.scopes.get p.id = some ref) (hne : ref ≠ root) :
    ∃ d, (dump p).run s = .error (.unexpectedScope (s.store.scopeId ref)) d := by
  obtain ⟨d, hrun⟩ := enterProgram_foreign hroot hrec hne ""
  refine ⟨d, ?_⟩
  rw [dump, Program.walk_eq_forM, EStateM.run_bind, Program.events, List.forM_cons,
    StateT.run_bind, EStateM.run_bind, hrun]

end

end Pass

end Semant
