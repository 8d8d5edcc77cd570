import Semant.Proofs.Outline.Valid

/-!
# Trees are orderly

The check expects its events in a certain order: a scope is left only after it was entered, a call
is typed only after its name was looked up, a cell is written only once. A tree in which no node
occurs twice gives its events in such an order, and this file proves it by one induction over the
tree.

What carries the induction is `Outline.Ready`: the nodes that are still to come are unheard of. An
event touches nothing but the cells of its own node (`Outline.agreesAt_step`), so reading one part
of a tree keeps the others ready (`Outline.Ready.rest`).
-/

set_option autoImplicit false

namespace Semant

namespace Outline

/-! ## What an event leaves alone -/

/-- Two outlines say the same about a node. -/
structure AgreesAt (o o' : Outline) (n : NodeId) : Prop where
  symbols : o'.symbols.get n = o.symbols.get n
  types : o'.types.get n = o.types.get n
  signatures : o'.signatures.get n = o.signatures.get n
  regions : ∀ around, (n, around) ∈ o'.regions ↔ (n, around) ∈ o.regions

theorem AgreesAt.refl (o : Outline) (n : NodeId) : o.AgreesAt o n :=
  ⟨rfl, rfl, rfl, fun _ => Iff.rfl⟩

theorem AgreesAt.trans {o₁ o₂ o₃ : Outline} {n : NodeId} (h : o₁.AgreesAt o₂ n)
    (h' : o₂.AgreesAt o₃ n) : o₁.AgreesAt o₃ n :=
  ⟨h'.symbols.trans h.symbols, h'.types.trans h.types, h'.signatures.trans h.signatures,
    fun around => (h'.regions around).trans (h.regions around)⟩

theorem agreesAt_opened (o : Outline) {node n : NodeId} (hn : node ≠ n) :
    o.AgreesAt (o.opened node) n :=
  ⟨rfl, rfl, rfl, fun around => by simp [Outline.opened, Ne.symm hn]⟩

theorem agreesAt_declare (o : Outline) {d : Definition} {n : NodeId} (hn : d.id ≠ n) :
    o.AgreesAt (o.declare d) n := by
  unfold Outline.declare Outline.write
  cases o.frames with
  | nil => exact AgreesAt.refl o n
  | cons frame outer => exact ⟨by simp [Cells.get_put, hn], rfl, rfl, fun _ => Iff.rfl⟩

theorem agreesAt_refer (o : Outline) {node n : NodeId} (name : Identifier) (use : Use)
    (hn : node ≠ n) : o.AgreesAt (o.refer node name use) n :=
  ⟨by simp [Outline.refer, Cells.get_put, hn], rfl, rfl, fun _ => Iff.rfl⟩

theorem agreesAt_settle (o : Outline) {e : Expr} {n : NodeId} (type : Option Ty) (hn : e.id ≠ n) :
    o.AgreesAt (o.settle e type) n :=
  ⟨rfl, by simp [Outline.settle, Cells.get_put, hn], rfl, fun _ => Iff.rfl⟩

/-- **An event touches nothing but what is known about its own node**, and about the node inside a
variable or a call that it enters. -/
theorem agreesAt_step (o : Outline) {event : Event} {n : NodeId} (hn : event.subject? ≠ some n)
    (hinner : event.entered? ≠ some n) : o.AgreesAt (o.step event) n := by
  have hne : ∀ {m : NodeId}, event.subject? = some m → m ≠ n := by
    rintro m hm rfl
    exact hn hm
  cases event with
  | enterProgram p => exact o.agreesAt_opened (hne rfl)
  | enterBlock b => exact o.agreesAt_opened (hne rfl)
  | enterDecl d => exact o.agreesAt_declare (hne rfl)
  | enterParam f d =>
    have hd := o.agreesAt_declare (d := .data d) (hne rfl)
    exact ⟨hd.symbols, hd.types, hd.signatures, hd.regions⟩
  | enterFunction f =>
    have hd := (o.agreesAt_declare (d := .function f) (hne rfl)).trans
      (agreesAt_opened _ (hne rfl))
    exact ⟨hd.symbols, hd.types, hd.signatures, hd.regions⟩
  | exitParams f =>
    have hf : f.id ≠ n := hne rfl
    exact ⟨rfl, rfl, by simp [Outline.step, Cells.get_put, hf], fun _ => Iff.rfl⟩
  | enterAssign a => exact o.agreesAt_refer _ _ (hne rfl)
  -- the slot is in the node inside, which is no subject of the event but one that it enters
  | enterVariable e name => exact o.agreesAt_refer _ _ fun he => hinner (congrArg some he)
  | enterCall e callee args => exact o.agreesAt_refer _ _ fun he => hinner (congrArg some he)
  | exitVariable e name => exact o.agreesAt_settle _ (hne rfl)
  | exitCall e callee args => exact o.agreesAt_settle _ (hne rfl)
  | exitBinary e op token lhs rhs => exact o.agreesAt_settle _ (hne rfl)
  | exitUnary e op token operand => exact o.agreesAt_settle _ (hne rfl)
  | exitCast e target operand => exact o.agreesAt_settle _ (hne rfl)
  | exitGrouped e inner => exact o.agreesAt_settle _ (hne rfl)
  | exitFormat e token args => exact o.agreesAt_settle _ (hne rfl)
  | exitProgram | exitBlock | exitFunction | enterStart | enterImport | exitStart | enterData
  | exitData | exitAssign | enterIf | exitIf | enterWhile | exitWhile | enterDo | exitDo
  | exitReturn | exitYield | enterBreak | enterContinue | enterInline | enterExpr | exitExpr
  | exitLiteral => exact ⟨rfl, rfl, rfl, fun _ => Iff.rfl⟩

/-- Reading a part of a tree touches only what is known about nodes of that part. -/
theorem agreesAt_run (o : Outline) {events : List Event} {n : NodeId}
    (hn : ∀ event ∈ events, event.subject? ≠ some n) (hinner : n ∉ entered events) :
    o.AgreesAt (o.run events) n := by
  induction events generalizing o with
  | nil => exact AgreesAt.refl o n
  | cons event rest ih =>
    have hhere : event.entered? ≠ some n := fun he => hinner (by simp [entered_cons, he])
    have hlater : n ∉ entered rest := fun hm => hinner (by simp [entered_cons, hm])
    exact (o.agreesAt_step (hn event List.mem_cons_self) hhere).trans
      (ih (o.step event) (fun ev hm => hn ev (List.mem_cons_of_mem _ hm)) hlater)

theorem agreesAt_of_not_mem (o : Outline) {events : List Event} (hg : Grounded events) {n : NodeId}
    (hn : n ∉ entered events) : o.AgreesAt (o.run events) n :=
  o.agreesAt_run (fun event hm hs => hn (hg event hm n hs)) hn

/-- Nothing is known about a node yet. -/
structure Fresh (o : Outline) (n : NodeId) : Prop where
  symbols : o.symbols.get n = none
  types : o.types.get n = none
  signatures : o.signatures.get n = none
  regions : o.Unopened n

theorem Fresh.of_agrees {o o' : Outline} {n : NodeId} (h : o.Fresh n) (ha : o.AgreesAt o' n) :
    o'.Fresh n :=
  ⟨ha.symbols.trans h.symbols, ha.types.trans h.types, ha.signatures.trans h.signatures,
    fun around hm => h.regions around ((ha.regions around).mp hm)⟩

theorem Fresh.canDeclare {o : Outline} {d : Definition} (h : o.Fresh d.id) (hf : o.frames ≠ [])
    (ht : d.typeName.type?.isSome) : o.CanDeclare d :=
  ⟨hf, h.symbols, h.signatures, ht⟩

/-! ## What was found stays found -/

/-- What a node stands for is settled once, since no node is read twice. -/
theorem symbols_step {o : Outline} {event : Event} (hp : o.Permits event) {n : NodeId}
    {found : Option Entry} (h : o.symbols.get n = some found) :
    (o.step event).symbols.get n = some found := by
  have hput : ∀ {m : NodeId} (x : Option Entry), o.symbols.get m = none →
      (o.symbols.put m x).get n = some found := by
    intro m x hm
    have hne : m ≠ n := by
      rintro rfl
      rw [hm] at h
      cases h
    rw [Cells.get_put, if_neg hne, h]
  have hdeclare : ∀ {d : Definition}, o.CanDeclare d → (o.declare d).symbols.get n = some found := by
    intro d hd
    rw [symbols_declare d hd.1]
    exact hput _ hd.2.1
  cases event with
  | enterDecl d => exact hdeclare hp
  | enterParam f d => exact hdeclare hp.1
  | enterFunction f => exact hdeclare hp.1
  | enterAssign a => exact hput _ hp.2
  | enterVariable e name => exact hput _ hp.2
  | enterCall e callee args => exact hput _ hp.2
  | _ => exact h

theorem symbols_run {o : Outline} {events : List Event} (ho : o.Orderly events) {n : NodeId}
    {found : Option Entry} (h : o.symbols.get n = some found) :
    (o.run events).symbols.get n = some found := by
  induction events generalizing o with
  | nil => exact h
  | cons event rest ih => exact ih ho.2 (symbols_step ho.1 h)

/-- So is the type of an expression. -/
theorem types_step {o : Outline} {event : Event} (hp : o.Permits event) {n : NodeId}
    {found : Option Ty} (h : o.types.get n = some found) :
    (o.step event).types.get n = some found := by
  have hsettle : ∀ {e : Expr} (type : Option Ty), o.CanSettle e →
      (o.settle e type).types.get n = some found := by
    intro e type he
    have hne : e.id ≠ n := by
      rintro rfl
      rw [he.1] at h
      cases h
    rw [Outline.settle, Cells.get_put, if_neg hne, h]
  have hdeclare : ∀ d, (o.declare d).types.get n = some found := by
    intro d
    unfold Outline.declare Outline.write
    cases o.frames <;> exact h
  cases event with
  | enterDecl d => exact hdeclare _
  | enterParam f d => exact hdeclare _
  | enterFunction f => exact hdeclare _
  | exitVariable e name => exact hsettle _ hp.1
  | exitCall e callee args => exact hsettle _ hp.1
  | exitBinary e op token lhs rhs => exact hsettle _ hp.1
  | exitUnary e op token operand => exact hsettle _ hp.1
  | exitCast e target operand => exact hsettle _ hp.1
  | exitGrouped e inner => exact hsettle _ hp.1
  | exitFormat e token args => exact hsettle _ hp
  | _ => exact h

theorem types_run {o : Outline} {events : List Event} (ho : o.Orderly events) {n : NodeId}
    {found : Option Ty} (h : o.types.get n = some found) :
    (o.run events).types.get n = some found := by
  induction events generalizing o with
  | nil => exact h
  | cons event rest ih => exact ih ho.2 (types_step ho.1 h)

@[simp]
theorem literals_step (o : Outline) (event : Event) : (o.step event).literals = o.literals := by
  have hdeclare : ∀ d, (o.declare d).literals = o.literals := by
    intro d
    unfold Outline.declare Outline.write
    cases o.frames <;> rfl
  cases event <;> first | rfl | exact hdeclare _

@[simp]
theorem literals_run (o : Outline) (events : List Event) : (o.run events).literals = o.literals := by
  induction events generalizing o with
  | nil => rfl
  | cons event rest ih => rw [run_cons, ih, literals_step]

theorem typeOf_settle (o : Outline) {e : Expr} (he : e.isLiteral = false) (type : Option Ty) :
    (o.settle e type).typeOf e = type := by
  cases e with
  | literal id token given => cases he
  | _ => simp [typeOf, settle, Cells.get_put]

/-- The type of an expression that was read stays what it is. -/
theorem Settled.typeOf_run {o : Outline} {e : Expr} (h : o.Settled e) {events : List Event}
    (ho : o.Orderly events) : (o.run events).typeOf e = o.typeOf e := by
  have hcell : e.isLiteral = false → ((o.run events).types.get e.id).join = (o.types.get e.id).join := by
    intro he
    rcases h with hl | hs
    · rw [hl] at he
      cases he
    · obtain ⟨found, hf⟩ := Option.isSome_iff_exists.mp hs
      rw [types_run ho hf, hf]
  cases e with
  | literal id token given => simp [Outline.typeOf]
  | _ => exact hcell rfl

theorem Settled.run {o : Outline} {e : Expr} (h : o.Settled e) {events : List Event}
    (ho : o.Orderly events) : (o.run events).Settled e := by
  refine h.imp id fun hs => ?_
  obtain ⟨found, hf⟩ := Option.isSome_iff_exists.mp hs
  exact Option.isSome_iff_exists.mpr ⟨found, types_run ho hf⟩

/-! ## What a part of a tree changes around it -/

/-- The innermost scope has some more declarations, and the scopes around it are as they were. -/
def Grows (o o' : Outline) (ds : List Definition) : Prop :=
  ∃ frame outer new, o.frames = frame :: outer ∧
    o'.frames = { frame with entries := frame.entries ++ new } :: outer ∧
      new.map Entry.definition = ds

theorem Grows.refl {o o' : Outline} (hf : o.frames ≠ []) (h : o'.frames = o.frames) :
    o.Grows o' [] := by
  cases hfr : o.frames with
  | nil => exact absurd hfr hf
  | cons frame outer => exact ⟨frame, outer, [], hfr, by simp [h, hfr], rfl⟩

theorem Grows.trans {o₁ o₂ o₃ : Outline} {ds ds' : List Definition} (h : o₁.Grows o₂ ds)
    (h' : o₂.Grows o₃ ds') : o₁.Grows o₃ (ds ++ ds') := by
  obtain ⟨frame, outer, new, h₁, h₂, rfl⟩ := h
  obtain ⟨frame', outer', new', h₂', h₃, rfl⟩ := h'
  rw [h₂] at h₂'
  cases h₂'
  exact ⟨frame, outer, new ++ new', h₁, by simp [h₃], by simp⟩

theorem Grows.inside {o o' : Outline} {ds : List Definition} (h : o.Grows o' ds) :
    o'.frames ≠ [] := by
  obtain ⟨frame, outer, new, -, h, -⟩ := h
  simp [h]

theorem Grows.tail {o o' : Outline} {ds : List Definition} (h : o.Grows o' ds) :
    o'.frames.tail = o.frames.tail := by
  obtain ⟨frame, outer, new, h₁, h₂, -⟩ := h
  simp [h₁, h₂]

theorem Grows.of_frames {o o₁ o₂ : Outline} {ds : List Definition} (h : o.Grows o₁ ds)
    (he : o₂.frames = o₁.frames) : o.Grows o₂ ds := by
  obtain ⟨frame, outer, new, h₁, h₂, hn⟩ := h
  exact ⟨frame, outer, new, h₁, he.trans h₂, hn⟩

theorem Grows.scope {o o' : Outline} {ds : List Definition} (h : o.Grows o' ds) :
    o'.scope.map Entry.definition = o.scope.map Entry.definition ++ ds := by
  obtain ⟨frame, outer, new, h₁, h₂, rfl⟩ := h
  simp [Outline.scope, h₁, h₂, visible]

theorem grows_declare {o : Outline} (d : Definition) (hf : o.frames ≠ []) :
    o.Grows (o.declare d) [d] := by
  cases hfr : o.frames with
  | nil => exact absurd hfr hf
  | cons frame outer =>
    exact ⟨frame, outer, [o.entryOf d], hfr, by simp [Outline.declare, write_eq _ _ hfr], rfl⟩

/-- A part of a tree was read that declares something in the scope around it, and nothing else is
left of it there. -/
structure Passes (o o' : Outline) (ds : List Definition) : Prop where
  grows : o.Grows o' ds
  header : o'.header = o.header
  function : o'.function = o.function

theorem Passes.trans {o₁ o₂ o₃ : Outline} {ds ds' : List Definition} (h : o₁.Passes o₂ ds)
    (h' : o₂.Passes o₃ ds') : o₁.Passes o₃ (ds ++ ds') :=
  ⟨h.grows.trans h'.grows, h'.header.trans h.header, h'.function.trans h.function⟩

theorem passes_settle {o : Outline} (e : Expr) (type : Option Ty) (hf : o.frames ≠ []) :
    o.Passes (o.settle e type) [] :=
  ⟨Grows.refl hf rfl, rfl, rfl⟩

/-- The check can read the events, which declare something in the scope around them. -/
structure Reads (o : Outline) (events : List Event) (ds : List Definition) : Prop where
  orderly : o.Orderly events
  passes : o.Passes (o.run events) ds

theorem Reads.nil {o : Outline} (hf : o.frames ≠ []) : o.Reads [] [] :=
  ⟨trivial, Grows.refl hf rfl, rfl, rfl⟩

theorem Reads.event {o : Outline} {event : Event} {ds : List Definition} (h : o.Permits event)
    (hp : o.Passes (o.step event) ds) : o.Reads [event] ds :=
  ⟨⟨h, trivial⟩, hp⟩

theorem Reads.quiet {o : Outline} {event : Event} (hf : o.frames ≠ []) (h : o.Permits event)
    (hs : o.step event = o) : o.Reads [event] [] :=
  Reads.event h ⟨Grows.refl hf (by rw [hs]), by rw [hs], by rw [hs]⟩

theorem Reads.append {o : Outline} {first rest : List Event} {ds ds' : List Definition}
    (h : o.Reads first ds) (h' : (o.run first).Reads rest ds') :
    o.Reads (first ++ rest) (ds ++ ds') :=
  ⟨(orderly_append o first rest).mpr ⟨h.orderly, h'.orderly⟩,
    by rw [run_append]; exact h.passes.trans h'.passes⟩

theorem Reads.inside {o : Outline} {events : List Event} {ds : List Definition}
    (h : o.Reads events ds) : (o.run events).frames ≠ [] :=
  h.passes.grows.inside

/-! ## What has to hold before a part of a tree is read -/

/-- The nodes of the events are new, no two of them are the same, and types are named. -/
structure Ready (o : Outline) (events : List Event) : Prop where
  inside : o.frames ≠ []
  fresh : ∀ n ∈ entered events, o.Fresh n
  distinct : (entered events).Nodup
  named : ∀ event ∈ events, ∀ token ∈ event.typeNames, token.type?.isSome

/-- No signature is open, and the function around names the type that it returns. -/
structure AtRest (o : Outline) : Prop where
  header : o.header = none
  returns : ∀ f, o.function = some f → f.returns.type?.isSome

theorem Passes.atRest {o o' : Outline} {ds : List Definition} (h : o.Passes o' ds) (hr : o.AtRest) :
    o'.AtRest :=
  ⟨h.header.trans hr.header, fun f hf => hr.returns f (h.function.symm.trans hf)⟩

theorem Ready.left {o : Outline} {first rest : List Event} (h : o.Ready (first ++ rest)) :
    o.Ready first where
  inside := h.inside
  fresh := fun n hn => h.fresh n (by simp [hn])
  distinct := by
    have hd := h.distinct
    rw [entered_append] at hd
    exact (List.nodup_append.mp hd).1
  named := fun event hm => h.named event (List.mem_append_left _ hm)

/-- What comes later stays ready when a part is read. -/
theorem Ready.rest {o : Outline} {first rest : List Event} (h : o.Ready (first ++ rest))
    (hg : Grounded first) (hf : (o.run first).frames ≠ []) : (o.run first).Ready rest where
  inside := hf
  fresh := by
    intro n hn
    have hd := h.distinct
    rw [entered_append] at hd
    have hnew : n ∉ entered first := fun hm => (List.nodup_append.mp hd).2.2 n hm n hn rfl
    exact (h.fresh n (by simp [hn])).of_agrees (o.agreesAt_of_not_mem hg hnew)
  distinct := by
    have hd := h.distinct
    rw [entered_append] at hd
    exact (List.nodup_append.mp hd).2.1
  named := fun event hm => h.named event (List.mem_append_right _ hm)

theorem Ready.skip {o : Outline} {event : Event} {rest : List Event}
    (h : o.Ready (event :: rest)) : o.Ready rest where
  inside := h.inside
  fresh := fun n hn => h.fresh n (by simp [entered_cons, hn])
  distinct := by
    have hd := h.distinct
    rw [entered_cons] at hd
    exact (List.nodup_append.mp hd).2.1
  named := fun e hm => h.named e (List.mem_cons_of_mem _ hm)

/-- The node that is entered first is new, and does not occur in what follows. -/
theorem Ready.head {o : Outline} {event : Event} {rest : List Event} {n : NodeId}
    (h : o.Ready (event :: rest)) (he : event.entered? = some n) :
    o.Fresh n ∧ n ∉ entered rest := by
  have hd := h.distinct
  rw [entered_cons, he] at hd
  exact ⟨h.fresh n (by simp [entered_cons, he]), (List.nodup_cons.mp hd).1⟩

/-- What follows an event stays ready, unless the event is about one of the nodes to come. -/
theorem Ready.step {o : Outline} {event : Event} {rest : List Event} (h : o.Ready (event :: rest))
    (hf : (o.step event).frames ≠ [])
    (hs : ∀ n, event.subject? = some n → n ∉ entered rest) : (o.step event).Ready rest where
  inside := hf
  fresh := by
    intro n hn
    exact (h.skip.fresh n hn).of_agrees
      (o.agreesAt_step (fun he => hs n he hn) fun he => (h.head he).2 hn)
  distinct := h.skip.distinct
  named := h.skip.named

/-- Once a node was entered its parts are ready. -/
theorem Ready.parts {o : Outline} {event : Event} {parts last : List Event} {n : NodeId}
    (h : o.Ready (event :: (parts ++ last))) (he : event.entered? = some n)
    (hs : event.subject? = some n) (hf : (o.step event).frames ≠ []) :
    (o.step event).Ready parts := by
  refine (h.step hf fun m hm => ?_).left
  cases hs.symm.trans hm
  exact (h.head he).2

/-! ## Expressions -/

@[simp]
theorem step_enterExpr (o : Outline) (e : Expr) : o.step (.enterExpr e) = o := rfl

@[simp]
theorem step_exitExpr (o : Outline) (e : Expr) : o.step (.exitExpr e) = o := rfl

/-- The last events of an expression settle its type. -/
theorem reads_exit {o : Outline} {e : Expr} {exit : Event} {type : Option Ty}
    (hf : o.frames ≠ []) (hp : o.Permits exit) (hs : o.step exit = o.settle e type) :
    o.Reads [exit, .exitExpr e] [] ∧ (o.run [exit, .exitExpr e]).Settled e := by
  refine ⟨⟨⟨hp, trivial, trivial⟩, ?_⟩, Or.inr ?_⟩
  · simpa [hs] using passes_settle e type hf
  · simp [hs, Outline.settle, Cells.get_put]

/-- An operation is typed after its operands were read. -/
theorem Ready.operation {o : Outline} {e : Expr} {parts : List Event} {exit : Event}
    {type : Option Ty} (h : o.Ready (.enterExpr e :: (parts ++ [exit, .exitExpr e])))
    (hg : Grounded parts) (hparts : o.Reads parts []) (hlit : e.isLiteral = false)
    (hexit : (o.run parts).CanSettle e → (o.run parts).Permits exit)
    (hstep : (o.run parts).step exit = (o.run parts).settle e type) :
    o.Reads (.enterExpr e :: (parts ++ [exit, .exitExpr e])) [] ∧
      (o.run (.enterExpr e :: (parts ++ [exit, .exitExpr e]))).Settled e := by
  obtain ⟨hfresh, hnot⟩ := h.head rfl
  have hnew : e.id ∉ entered parts := fun hm => hnot (by simp [hm])
  have hcan : (o.run parts).CanSettle e :=
    ⟨(hfresh.of_agrees (o.agreesAt_of_not_mem hg hnew)).types, hlit⟩
  obtain ⟨hlast, hset⟩ := reads_exit hparts.inside (hexit hcan) hstep
  have hquiet : o.Reads [.enterExpr e] [] := Reads.quiet h.inside trivial rfl
  exact ⟨hquiet.append (hparts.append hlast), by simpa using hset⟩

/-- A name is looked up before the arguments of a call are read, and typed after them. -/
theorem Ready.use {o : Outline} {e : Expr} {name : Identifier} {use : Use} {enter exit : Event}
    {type : Option Ty} (parts : List Event)
    (h : o.Ready (.enterExpr e :: enter :: (parts ++ [exit, .exitExpr e])))
    (hentered : enter.entered? = some e.nameNode)
    (henter : o.CanRefer e.nameNode → o.Permits enter)
    (hrefer : o.step enter = o.refer e.nameNode name use)
    (hg : Grounded parts) (hparts : (o.refer e.nameNode name use).Reads parts [])
    (hlit : e.isLiteral = false)
    (hexit : ((o.refer e.nameNode name use).run parts).CanSettle e →
      ((o.refer e.nameNode name use).run parts).symbols.get e.nameNode
          = some (resolution o.scope name use).toOption →
        ((o.refer e.nameNode name use).run parts).Permits exit)
    (hstep : ((o.refer e.nameNode name use).run parts).step exit
      = ((o.refer e.nameNode name use).run parts).settle e type) :
    o.Reads (.enterExpr e :: enter :: (parts ++ [exit, .exitExpr e])) [] ∧
      (o.run (.enterExpr e :: enter :: (parts ++ [exit, .exitExpr e]))).Settled e := by
  obtain ⟨hfresh, hnot⟩ := h.head rfl
  obtain ⟨hfreshName, hnotName⟩ := h.skip.head hentered
  have hnew : e.id ∉ entered parts := fun hm => hnot (by simp [entered_cons, hm])
  have hnewName : e.nameNode ∉ entered parts := fun hm => hnotName (by simp [hm])
  have hcan : ((o.refer e.nameNode name use).run parts).CanSettle e :=
    ⟨((o.refer e.nameNode name use).agreesAt_of_not_mem hg hnew).types.trans hfresh.types, hlit⟩
  -- The parts have nodes of their own, so the name still stands for what it was looked up as.
  have hslot : ((o.refer e.nameNode name use).run parts).symbols.get e.nameNode
      = some (resolution o.scope name use).toOption := by
    rw [((o.refer e.nameNode name use).agreesAt_of_not_mem hg hnewName).symbols]
    simp [Outline.refer, Cells.get_put]
  obtain ⟨hlast, hset⟩ := reads_exit hparts.inside (hexit hcan hslot) hstep
  have hquiet : o.Reads [.enterExpr e] [] := Reads.quiet h.inside trivial rfl
  have hname : o.Reads [enter] [] :=
    Reads.event (henter ⟨h.inside, hfreshName.symbols⟩)
      (by rw [hrefer]; exact ⟨Grows.refl h.inside rfl, rfl, rfl⟩)
  refine ⟨hquiet.append (hname.append ((?_ : Reads _ parts []).append ?_)), ?_⟩
  · simpa [hrefer] using hparts
  · simpa [hrefer] using hlast
  · simpa [hrefer] using hset

/-- Once the name of a call was looked up its arguments are ready. -/
theorem Ready.arguments {o : Outline} {e : Expr} {callee : Identifier} {args : List Expr}
    {parts last : List Event}
    (h : o.Ready (.enterExpr e :: .enterCall e callee args :: (parts ++ last))) :
    (o.refer e.nameNode callee .callee).Ready parts := by
  have hnot := (h.head rfl).2
  refine Ready.left (Ready.step (Ready.step h h.inside ?_) h.inside ?_)
  · intro n hn
    cases hn
    exact hnot
  · intro n hn
    cases hn
    exact fun hm => hnot (by rw [entered_cons]; exact List.mem_append_right _ hm)

end Outline

open Outline

mutual

/-- An expression can be read, declares nothing and has its type settled at the end. -/
theorem Expr.reads : ∀ (e : Expr) {o : Outline}, o.Ready e.events → o.header = none →
    o.Reads e.events [] ∧ (o.run e.events).Settled e
  | .literal id token given, o, h, _ => by
    refine ⟨⟨⟨trivial, rfl, trivial, trivial⟩, ?_⟩, Or.inl rfl⟩
    exact ⟨Grows.refl h.inside rfl, rfl, rfl⟩
  | .var id node name, o, h, _ => by
    refine Ready.use [] h rfl (fun hc => hc) rfl grounded_nil (Reads.nil h.inside) rfl ?_ rfl
    intro hcan hslot
    exact ⟨hcan, Option.isSome_iff_exists.mpr ⟨_, hslot⟩⟩
  | .call id node callee args, o, h, hh => by
    obtain ⟨hargs, hall⟩ := Expr.readsList args h.arguments hh
    refine Ready.use _ h rfl (fun hc => hc) rfl (Expr.groundedList args) hargs rfl ?_ rfl
    intro hcan hslot
    refine ⟨hcan, Option.isSome_iff_exists.mpr ⟨_, hslot⟩, hall, hargs.passes.header.trans hh, ?_⟩
    intro entry hs
    rw [Outline.symbolOf, hslot] at hs
    cases hr : resolution o.scope callee .callee with
    | error e =>
      rw [hr] at hs
      cases hs
    | ok found =>
      rw [hr] at hs
      cases hs
      exact (resolution_ok.mp hr).2
  | .binary id op token lhs rhs, o, h, hh => by
    have hboth := h.parts rfl rfl h.inside
    obtain ⟨hl, hsl⟩ := lhs.reads hboth.left hh
    obtain ⟨hr, hsr⟩ := rhs.reads (hboth.rest lhs.grounded hl.inside) (hl.passes.header.trans hh)
    refine h.operation (lhs.grounded.append rhs.grounded) (hl.append hr) rfl ?_ rfl
    intro hcan
    rw [run_append] at hcan ⊢
    -- The left operand was settled before the right one was read, and no cell is written twice.
    exact ⟨hcan, hsl.run hr.orderly, hsr⟩
  | .unary id op token operand, o, h, hh => by
    obtain ⟨hx, hs⟩ := operand.reads (h.parts rfl rfl h.inside) hh
    exact h.operation operand.grounded hx rfl (fun hcan => ⟨hcan, hs⟩) rfl
  | .cast id target operand, o, h, hh => by
    obtain ⟨hx, hs⟩ := operand.reads (h.parts rfl rfl h.inside) hh
    have ht : target.type?.isSome := h.named (.exitCast (.cast id target operand) target operand)
      (by simp [Expr.events]) target (by simp [Event.typeNames])
    exact h.operation operand.grounded hx rfl (fun hcan => ⟨hcan, hs, ht⟩) rfl
  | .grouped id inner, o, h, hh => by
    obtain ⟨hx, hs⟩ := inner.reads (h.parts rfl rfl h.inside) hh
    exact h.operation inner.grounded hx rfl (fun hcan => ⟨hcan, hs⟩) rfl
  | .format id token args, o, h, hh => by
    obtain ⟨hx, -⟩ := Expr.readsList args (h.parts rfl rfl h.inside) hh
    exact h.operation (Expr.groundedList args) hx rfl (fun hcan => hcan) rfl

theorem Expr.readsList : ∀ (es : List Expr) {o : Outline}, o.Ready (Expr.eventsOfList es) →
    o.header = none →
    o.Reads (Expr.eventsOfList es) [] ∧ ∀ e ∈ es, (o.run (Expr.eventsOfList es)).Settled e
  | [], o, h, _ => ⟨Reads.nil h.inside, by simp⟩
  | e :: rest, o, h, hh => by
    obtain ⟨he, hs⟩ := e.reads (Ready.left h) hh
    obtain ⟨hr, hall⟩ := Expr.readsList rest (Ready.rest h e.grounded he.inside)
      (he.passes.header.trans hh)
    refine ⟨he.append hr, ?_⟩
    intro x hm
    rw [Expr.eventsOfList, run_append]
    rcases List.mem_cons.mp hm with rfl | hm
    · exact hs.run hr.orderly
    · exact hall x hm

end

theorem Expr.readsOption (e : Option Expr) {o : Outline} (h : o.Ready (Expr.eventsOfOption e))
    (hh : o.header = none) :
    o.Reads (Expr.eventsOfOption e) [] ∧
      ∀ x, e = some x → (o.run (Expr.eventsOfOption e)).Settled x := by
  cases e with
  | none => exact ⟨Reads.nil h.inside, by simp⟩
  | some e =>
    obtain ⟨he, hs⟩ := e.reads h hh
    refine ⟨he, ?_⟩
    rintro x hx
    cases hx
    exact hs

/-! ## Statements -/

theorem Outline.Ready.decl {o : Outline} {d : Decl} {rest : List Event}
    (h : o.Ready (.enterDecl d :: rest)) : o.Reads [.enterDecl d] [.data d] := by
  have htype : d.type.type?.isSome := h.named (.enterDecl d) (by simp) _ (by simp [Event.typeNames])
  obtain ⟨-, -, hheader, hfunction⟩ := declare_frame o (.data d)
  exact Reads.event (Fresh.canDeclare (h.head rfl).1 h.inside htype)
    ⟨grows_declare (.data d) h.inside, hheader, hfunction⟩

theorem DataDef.reads (d : DataDef) {o : Outline} (h : o.Ready d.events) (hh : o.header = none) :
    o.Reads d.events [.data d.decl] := by
  have hquiet : o.Reads [.enterData d] [] := Reads.quiet h.inside trivial rfl
  have hrest : o.Ready (.enterDecl d.decl :: (Expr.eventsOfOption d.init ++ [.exitData d])) :=
    Ready.skip h
  have htype : d.decl.type.type?.isSome :=
    h.named (.enterDecl d.decl) (by simp [DataDef.events]) _ (by simp [Event.typeNames])
  have hdecl := hrest.decl
  obtain ⟨hinit, hs⟩ := Expr.readsOption d.init (hrest.parts rfl rfl hdecl.inside)
    (hdecl.passes.header.trans hh)
  exact hquiet.append (hdecl.append (hinit.append (Reads.quiet hinit.inside ⟨htype, hs⟩ rfl)))

mutual

theorem Stmt.reads : ∀ (s : Stmt) {o : Outline}, o.Ready s.events → o.AtRest →
    o.Reads s.events s.declares
  | .data d, o, h, hr => d.reads h hr.header
  | .assign a, o, h, hr => by
    obtain ⟨hfresh, hnot⟩ := h.head rfl
    have hname : o.Reads [.enterAssign a] [] :=
      Reads.event ⟨h.inside, hfresh.symbols⟩ ⟨Grows.refl h.inside rfl, rfl, rfl⟩
    obtain ⟨hv, hs⟩ := a.value.reads (h.parts rfl rfl h.inside) hr.header
    have hnew : a.id ∉ entered a.value.events := fun hm => hnot (by simp [hm])
    -- between the two events the value is read, and it does not enter the node of the assignment
    have hslot := (Outline.agreesAt_of_not_mem (o.step (.enterAssign a)) a.value.grounded hnew).symbols
    refine hname.append (hv.append (Reads.quiet hv.inside ⟨?_, hs⟩ rfl))
    rw [hslot]
    simp [Outline.step, Outline.refer, Cells.get_put]
  | .expr value, o, h, hr => (value.reads h hr.header).1
  | .branch conditional, o, h, hr => conditional.reads h hr
  | .whileLoop keyword cond body, o, h, hr => by
    have hquiet : o.Reads [.enterWhile keyword cond body] [] := Reads.quiet h.inside trivial rfl
    have hboth : o.Ready (Expr.eventsOfOption cond ++ body.events) :=
      Ready.left (Ready.skip h)
    obtain ⟨hc, -⟩ := Expr.readsOption cond hboth.left hr.header
    have hb := body.reads (hboth.rest (Expr.groundedOption cond) hc.inside) (hc.passes.atRest hr)
    exact hquiet.append ((hc.append hb).append (Reads.quiet (hc.append hb).inside trivial rfl))
  | .doLoop keyword body cond, o, h, hr => by
    have hquiet : o.Reads [.enterDo keyword body cond] [] := Reads.quiet h.inside trivial rfl
    have hboth : o.Ready (body.events ++ Expr.eventsOfOption cond) :=
      Ready.left (Ready.skip h)
    have hb := body.reads hboth.left hr
    obtain ⟨hc, -⟩ := Expr.readsOption cond (hboth.rest body.grounded hb.inside)
      (hb.passes.header.trans hr.header)
    exact hquiet.append ((hb.append hc).append (Reads.quiet (hb.append hc).inside trivial rfl))
  | .ret keyword value, o, h, hr => by
    obtain ⟨hv, hs⟩ := Expr.readsOption value (Ready.left h) hr.header
    exact hv.append (Reads.quiet hv.inside ⟨(hv.passes.atRest hr).returns, hs⟩ rfl)
  | .yield keyword value, o, h, hr => by
    obtain ⟨hv, -⟩ := Expr.readsOption value (Ready.left h) hr.header
    exact hv.append (Reads.quiet hv.inside trivial rfl)
  | .brk keyword, _, h, _ => Reads.quiet h.inside trivial rfl
  | .cont keyword, _, h, _ => Reads.quiet h.inside trivial rfl
  | .inline keyword text, _, h, _ => Reads.quiet h.inside trivial rfl
  | .block body, _, h, hr => body.reads h hr

/-- A block opens a scope and leaves it again, with all that was declared in it. -/
theorem Block.reads : ∀ (b : Block) {o : Outline}, o.Ready b.events → o.AtRest → o.Reads b.events []
  | .mk id brace body, o, h, hr => by
    have hopen : (o.opened id).frames ≠ [] := by simp [Outline.opened]
    have hb := Stmt.readsList body (h.parts rfl rfl hopen) ⟨hr.header, hr.returns⟩
    have hclosed : (((o.opened id).run (Stmt.eventsOfList body)).closed).frames = o.frames :=
      hb.passes.grows.tail
    refine ⟨⟨⟨h.inside, (h.head rfl).1.regions⟩, ?_⟩, ?_⟩
    · rw [orderly_append]
      exact ⟨hb.orderly, hb.inside, trivial⟩
    · rw [Block.events, run_cons, run_append]
      exact ⟨Grows.refl h.inside hclosed, hb.passes.header, hb.passes.function⟩

theorem Stmt.readsList : ∀ (body : List Stmt) {o : Outline}, o.Ready (Stmt.eventsOfList body) →
    o.AtRest → o.Reads (Stmt.eventsOfList body) (body.flatMap Stmt.declares)
  | [], o, h, _ => Reads.nil h.inside
  | s :: rest, o, h, hr => by
    have hs := s.reads (Ready.left h) hr
    exact hs.append (Stmt.readsList rest (Ready.rest h s.grounded hs.inside) (hs.passes.atRest hr))

theorem Conditional.reads : ∀ (c : Conditional) {o : Outline}, o.Ready c.events → o.AtRest →
    o.Reads c.events []
  | .mk keyword cond body otherwise, o, h, hr => by
    have hquiet : o.Reads [.enterIf (.mk keyword cond body otherwise)] [] :=
      Reads.quiet h.inside trivial rfl
    have hall : o.Ready (cond.events ++ body.events ++ otherwise.events) :=
      Ready.left (Ready.skip h)
    obtain ⟨hc, -⟩ := cond.reads hall.left.left hr.header
    have hb := body.reads (hall.left.rest cond.grounded hc.inside) (hc.passes.atRest hr)
    have hcb := hc.append hb
    have he := otherwise.reads (hall.rest (cond.grounded.append body.grounded) hcb.inside)
      (hcb.passes.atRest hr)
    have hcbe := hcb.append he
    exact hquiet.append (hcbe.append (Reads.quiet hcbe.inside trivial rfl))

theorem Else.reads : ∀ (e : Else) {o : Outline}, o.Ready e.events → o.AtRest → o.Reads e.events []
  | .none, _, h, _ => Reads.nil h.inside
  | .elseIf next, _, h, hr => next.reads h hr
  | .block body, _, h, hr => body.reads h hr

end

/-! ## Functions and programs -/

/-- Parameters are declared in the scope of the function, and their types collected in order. -/
theorem Function.readsParams (f : Function) : ∀ (params : List Decl) {o : Outline} {s : Signature},
    o.Ready (params.map (Event.enterParam f)) → o.header = some s →
    o.Orderly (params.map (Event.enterParam f)) ∧
      o.Grows (o.run (params.map (Event.enterParam f))) (params.map .data) ∧
      (o.run (params.map (Event.enterParam f))).header
        = some { s with params := s.params ++ params.map (·.type.named) } ∧
      (o.run (params.map (Event.enterParam f))).function = o.function
  | [], _, _, h, hh => ⟨trivial, Grows.refl h.inside rfl, by simp [hh], rfl⟩
  | d :: rest, o, s, h, hh => by
    obtain ⟨hfresh, hnot⟩ := Ready.head h rfl
    have htype : d.type.type?.isSome :=
      h.named (.enterParam f d) (by simp) _ (by simp [Event.typeNames])
    have hcan : o.CanDeclare (.data d) := Fresh.canDeclare hfresh h.inside htype
    have hgrows : o.Grows (o.step (.enterParam f d)) [.data d] := grows_declare (.data d) h.inside
    have hheader : (o.step (.enterParam f d)).header
        = some { s with params := s.params ++ [d.type.named] } := by
      simp [Outline.step, hh]
    have hready : (o.step (.enterParam f d)).Ready (rest.map (Event.enterParam f)) := by
      refine Ready.step h hgrows.inside fun n hn => ?_
      cases hn
      exact hnot
    obtain ⟨ho, hg, hp, hf⟩ := Function.readsParams f rest hready hheader
    refine ⟨⟨⟨hcan, by simp [hh]⟩, ho⟩, hgrows.trans hg, ?_, ?_⟩
    · rw [List.map_cons, run_cons, hp]
      simp
    · rw [List.map_cons, run_cons, hf]
      exact (declare_frame o (.data d)).2.2.2

/-- Before the body the scope of the function is open, and its parameters and its signature are
known. -/
theorem Function.readsHeader (f : Function) {o : Outline} (h : o.Ready f.events)
    (hh : o.header = none) :
    o.Orderly f.header ∧
      (o.step (.enterFunction f)).Grows (o.run f.header) (f.params.map .data) ∧
      (o.run f.header).Ready (f.body.events ++ [.exitFunction f]) ∧
      (o.run f.header).AtRest ∧ (o.run f.header).function = some f := by
  obtain ⟨hfresh, hnot⟩ := Ready.head h rfl
  have htype : f.returns.type?.isSome :=
    h.named (.enterFunction f) (by simp [Function.events]) _ (by simp [Event.typeNames])
  let entry := o.step (.enterFunction f)
  let params := f.params.map (Event.enterParam f)
  have hall : entry.Ready (params ++ .exitParams f :: (f.body.events ++ [.exitFunction f])) := by
    refine Ready.step h (by simp [Outline.step, Outline.opened]) fun n hn => ?_
    cases hn
    exact hnot
  obtain ⟨ho, hg, hheader, hfunction⟩ := f.readsParams f.params hall.left (s := _) rfl
  -- One type was added for each parameter; together they are what the declaration spells out.
  have hsig : (entry.run params).header = some f.signature := by
    rw [hheader]
    simp [Function.signature]
  have hnew : (entry.run params).signatures.get f.id = none := by
    have hparams : f.id ∉ entered params := fun hm => hnot (by simp [params, hm])
    rw [(entry.agreesAt_of_not_mem (f.groundedParams f.params) hparams).signatures]
    exact (congrArg (·.get f.id) (declare_frame o (.function f)).2.1).trans hfresh.signatures
  have hrun : o.run f.header = (entry.run params).step (.exitParams f) := by
    simp [Function.header, entry, params]
  rw [hrun]
  refine ⟨⟨⟨Fresh.canDeclare hfresh h.inside htype, hfresh.regions, hh⟩, ?_⟩, hg.of_frames rfl, ?_,
    ⟨rfl, ?_⟩, hfunction⟩
  · rw [orderly_append]
    exact ⟨ho, ⟨hfunction, hsig, hnew⟩, trivial⟩
  · refine Ready.step (hall.rest (f.groundedParams f.params) hg.inside) hg.inside fun n hn => ?_
    cases hn
    exact fun hm => hnot (by simp [entered_cons, Event.entered?] at hm ⊢; simp [hm])
  · intro g hf
    have he : some f = some g := hfunction.symm.trans hf
    cases he
    exact htype

/-- A function declares itself, and leaves nothing else in the scope around it. -/
theorem Function.reads (f : Function) {o : Outline} (h : o.Ready f.events) (hr : o.AtRest)
    (hout : o.function = none) : o.Reads f.events [.function f] := by
  obtain ⟨ho, hg, hbody, hrest, -⟩ := f.readsHeader h hr.header
  have hb := f.body.reads hbody.left hrest
  -- The body closes its own scope, and the end of the function the one with the parameters.
  have hleft : (((o.run f.header).run f.body.events).closed).frames
      = (o.declare (.function f)).frames :=
    hb.passes.grows.tail.trans hg.tail
  rw [Function.events_eq]
  refine ⟨?_, ?_⟩
  · rw [orderly_append, orderly_append]
    exact ⟨ho, hb.orderly, ⟨hb.inside, hb.passes.header.trans hrest.header⟩, trivial⟩
  · rw [run_append, run_append]
    exact ⟨(grows_declare (.function f) h.inside).of_frames hleft,
      hb.passes.header.trans (hrest.header.trans hr.header.symm), hout.symm⟩

theorem Item.reads (item : Item) {o : Outline} (h : o.Ready item.events) (hr : o.AtRest)
    (hout : o.function = none) : o.Reads item.events item.declares := by
  cases item with
  | imports i => exact Reads.quiet h.inside trivial rfl
  | data d => exact d.reads h hr.header
  | function f => exact f.reads h hr hout
  | start s =>
    -- Items stand outside of functions, so there is none to forget here.
    have hsame : o.step (.enterStart s) = o := by
      cases o
      cases hout
      rfl
    have hquiet : o.Reads [.enterStart s] [] := Reads.quiet h.inside hr.header hsame
    have hb := s.body.reads (Ready.left (Ready.skip h)) hr
    have hrest : (o.run [.enterStart s]).Reads (s.body.events ++ [.exitStart s]) [] := by
      rw [run_cons, hsame]
      exact hb.append (Reads.quiet hb.inside trivial rfl)
    exact hquiet.append hrest

theorem Item.readsList : ∀ (items : List Item) {o : Outline}, o.Ready (items.flatMap Item.events) →
    o.AtRest → o.function = none →
    o.Reads (items.flatMap Item.events) (items.flatMap Item.declares)
  | [], _, h, _, _ => Reads.nil h.inside
  | item :: rest, o, h, hr, hout => by
    rw [List.flatMap_cons] at h ⊢
    have hi := item.reads h.left hr hout
    rw [List.flatMap_cons]
    exact hi.append (Item.readsList rest (h.rest item.grounded hi.inside) (hi.passes.atRest hr)
      (hi.passes.function.trans hout))

/-- The items of a program are ready once its scope is open. -/
theorem Program.ready (p : Program) (literals : Cells Ty) (hn : p.nodes.Nodup)
    (ht : ∀ token ∈ p.typeNames, token.type?.isSome) :
    ((Outline.start literals).opened p.id).Ready (p.items.flatMap Item.events) := by
  have hd : (p.id :: entered (p.items.flatMap Item.events ++ [.exitProgram p])).Nodup := hn
  refine ⟨by simp [Outline.opened], ?_, ?_, ?_⟩
  · intro n hm
    have hne : p.id ≠ n := by
      rintro rfl
      exact (List.nodup_cons.mp hd).1 (by simp [hm])
    have hfresh : (Outline.start literals).Fresh n := by
      refine ⟨?_, ?_, ?_, ?_⟩ <;> simp [Outline.start, Outline.Unopened]
    exact hfresh.of_agrees (agreesAt_opened _ hne)
  · have hitems := (List.nodup_cons.mp hd).2
    rw [entered_append] at hitems
    exact (List.nodup_append.mp hitems).1
  · intro event hm token htoken
    refine ht token (List.mem_flatMap.mpr ⟨event, ?_, htoken⟩)
    simp only [Program.events, List.mem_cons, List.mem_append]
    exact Or.inr (Or.inl hm)

theorem Program.readsItems (p : Program) (literals : Cells Ty) (hn : p.nodes.Nodup)
    (ht : ∀ token ∈ p.typeNames, token.type?.isSome) :
    ((Outline.start literals).opened p.id).Reads (p.items.flatMap Item.events)
      (p.items.flatMap Item.declares) :=
  Item.readsList p.items (p.ready literals hn ht)
    ⟨rfl, by simp [Outline.start, Outline.opened]⟩ rfl

/-- **The events of a program come where the check expects them**, if no node occurs twice and
every type is named. -/
theorem Program.orderly (p : Program) (literals : Cells Ty) (hn : p.nodes.Nodup)
    (ht : ∀ token ∈ p.typeNames, token.type?.isSome) :
    (Outline.start literals).Orderly p.events := by
  have hitems := p.readsItems literals hn ht
  refine ⟨⟨rfl, rfl⟩, ?_⟩
  rw [orderly_append]
  exact ⟨hitems.orderly, hitems.inside, trivial⟩

/-- In the end all scopes are closed. -/
theorem Program.frames_run (p : Program) (literals : Cells Ty) (hn : p.nodes.Nodup)
    (ht : ∀ token ∈ p.typeNames, token.type?.isSome) :
    ((Outline.start literals).run p.events).frames = [] := by
  rw [Program.events, run_cons, run_append]
  exact (p.readsItems literals hn ht).passes.grows.tail

end Semant
