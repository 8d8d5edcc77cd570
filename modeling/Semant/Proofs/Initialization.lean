import Semant.Proofs.Conservation
import Semant.Proofs.Marks
import Semant.Proofs.Readiness
import Semant.Proofs.Traversal

/-!
# Which symbols have a value

`Semant.Proofs.Marks` says which declaration an event marks, by what is known when the event
happens. This file says it by what is known in the end (`Outline.Supplies`), where no order of
events is left: a symbol is marked if it is a parameter, or data whose own initial value fits, or if
a value that fits is assigned to it.

For types and for the targets of assignments what is known does not change, because no cell is
written twice. It takes one more fact about trees: the walk came to a name, and to the value that it
gets, before it comes to the event at which the name gets the value (`Announced`).
-/

set_option autoImplicit false

namespace Semant

/-! ## Before the end of a definition -/

/-- The events that come before an event at which a name gets a value: the walk came to the name,
and to the value. -/
def Event.needs : Event → List Event
  | .exitData d => .enterDecl d.decl :: d.init.toList.map .enterExpr
  | .exitAssign a => [.enterAssign a, .enterExpr a.value]
  | _ => []

/-- Events come after what they need. -/
def Announced (events : List Event) : Prop :=
  ∀ before event rest, events = before ++ event :: rest → ∀ first ∈ event.needs, first ∈ before

/-- Where a list was put together from two, an element stands in one of them. -/
theorem append_eq_split {α : Type} {xs ys before rest : List α} {x : α}
    (h : xs ++ ys = before ++ x :: rest) :
    (∃ middle, xs = before ++ x :: middle) ∨
      ∃ middle, before = xs ++ middle ∧ ys = middle ++ x :: rest := by
  rcases List.append_eq_append_iff.mp h with ⟨middle, hbefore, hys⟩ | ⟨middle, hxs, hrest⟩
  · exact .inr ⟨middle, hbefore, hys⟩
  · cases middle with
    | nil => exact .inr ⟨[], by simpa using hxs.symm, hrest.symm⟩
    | cons first middle =>
      cases hrest
      exact .inl ⟨middle, hxs⟩

namespace Announced

theorem plain {events : List Event} (h : ∀ event ∈ events, event.needs = []) :
    Announced events := by
  intro before event rest hsplit first hm
  rw [h event (by simp [hsplit])] at hm
  cases hm

theorem append {first rest : List Event} (h : Announced first) (h' : Announced rest) :
    Announced (first ++ rest) := by
  intro before event last hsplit need hm
  rcases append_eq_split hsplit with ⟨middle, hfirst⟩ | ⟨middle, rfl, hrest⟩
  · exact h before event middle hfirst need hm
  · exact List.mem_append_right _ (h' middle event last hrest need hm)

/-- An event after all that it needs. -/
theorem snoc {events : List Event} (h : Announced events) {event : Event}
    (hneeds : ∀ first ∈ event.needs, first ∈ events) : Announced (events ++ [event]) := by
  intro before other last hsplit need hm
  rcases append_eq_split hsplit with ⟨middle, hfirst⟩ | ⟨middle, rfl, hlast⟩
  · exact h before other middle hfirst need hm
  · cases middle with
    | nil =>
      cases hlast
      simpa using hneeds need hm
    | cons => simp at hlast

theorem flatMap {nodes : List Node} (h : ∀ n ∈ nodes, Announced n.events) :
    Announced (nodes.flatMap Node.events) := by
  induction nodes with
  | nil => exact plain (by simp)
  | cons n rest ih =>
    rw [List.forall_mem_cons] at h
    exact append h.1 (ih h.2)

end Announced

theorem Node.announced_of_children (n : Node) (h : ∀ c ∈ n.children, Announced c.events) :
    Announced n.events := by
  have hinner := Announced.flatMap h
  have hopening : Announced n.opening := by
    refine .plain ?_
    cases n with
    | expr e => cases e <;> simp [opening, Expr.opening, Event.needs]
    | _ => simp [opening, Event.needs]
  rw [n.events_eq, ← List.append_assoc]
  have hbefore := hopening.append hinner
  cases n with
  | data d =>
    refine hbefore.snoc ?_
    cases hi : d.init with
    | none => simp [Event.needs, opening, children, Node.events, hi]
    | some init => simp [Event.needs, opening, children, Node.events, hi, Expr.enterExpr_mem]
  | assign a =>
    exact hbefore.snoc (by simp [Event.needs, opening, children, Node.events, Expr.enterExpr_mem])
  | expr e =>
    refine hbefore.append (.plain ?_)
    cases e <;> simp [closing, Expr.closing, Event.needs]
  | _ => exact hbefore.append (.plain (by simp [closing, Event.needs]))

theorem Program.announced (p : Program) : Announced p.events :=
  p.node_induction Node.announced_of_children

/-! ## What supplies a value, by what is known in the end -/

theorem fits_iff {target value : Ty} :
    Fits target value ↔ ((Rules.assignment target value).toOption.map Checked.type).isSome := by
  unfold Fits
  cases Rules.assignment target value with
  | error e => simp [Except.toOption]
  | ok checked => simp [Except.toOption]

namespace Outline

variable {o : Outline}

/-- The event gives a value to the declaration with the number: it is a parameter, or what it is
initialized with or assigned fits its type. -/
def Supplies (o : Outline) (place : SymbolRef) : Event → Prop
  | .enterParam _ d => (o.symbolOf d.id).map Entry.place = some place
  | .exitData d => (o.symbolOf d.decl.id).map Entry.place = some place ∧
    ∃ init value, d.init = some init ∧ o.typeOf init = some value ∧ Fits d.decl.type.named value
  | .exitAssign a => ∃ entry value, o.symbolOf a.id = some entry ∧ entry.place = place ∧
    o.typeOf a.value = some value ∧ Fits entry.definition.type value
  | _ => False

theorem answer_exitData_isSome {d : DataDef} :
    (o.answer (.exitData d)).isSome ↔
      ∃ init value, d.init = some init ∧ o.typeOf init = some value ∧ Fits d.decl.type.named value := by
  cases hi : d.init with
  | none => simp [answer, question, hi]
  | some init =>
    cases hv : o.typeOf init with
    | none => simp [answer, question, hi, hv]
    | some value =>
      by_cases hn : d.decl.type.named = .nothing
      · simp [answer, question, hi, hv, hn, not_fits_nothing]
      · simp [answer, question, hi, hv, hn, fits_iff]

theorem answer_exitAssign_isSome {a : Assignment} {entry : Entry} (h : o.symbolOf a.id = some entry) :
    (o.answer (.exitAssign a)).isSome ↔
      ∃ value, o.typeOf a.value = some value ∧ Fits entry.definition.type value := by
  cases hv : o.typeOf a.value with
  | none => simp [answer, question, h, hv]
  | some value => simp [answer, question, h, hv, fits_iff]

/-- The cell of a node that was mentioned is filled. -/
theorem symbols_of_mentioned {events : List Event} (ho : o.Orderly events) {event : Event}
    (hm : event ∈ events) {n : NodeId} (hn : event.mentions? = some n) :
    ((o.run events).symbols.get n).isSome := by
  obtain ⟨before, rest, rfl⟩ := List.append_of_mem hm
  rw [orderly_append] at ho
  obtain ⟨-, hp, hrest⟩ := ho
  have hcell : (((o.run before).step event).symbols.get n).isSome := by
    cases hd : event.declares? with
    | some d =>
      rw [Event.mentions?, hd] at hn
      cases hn
      rw [(of_declares hd hp).2.1]
      rfl
    | none =>
      cases hr : event.refers? with
      | none =>
        rw [Event.mentions?, hd, hr] at hn
        cases hn
      | some r =>
        cases (Event.mentions?_of_refers hr).symm.trans hn
        rw [(of_refers hr).1]
        rfl
  obtain ⟨found, hfound⟩ := Option.isSome_iff_exists.mp hcell
  rw [run_append, run_cons, symbols_run hrest hfound]
  rfl

/-- What a node stands for that was mentioned already does not change. -/
theorem symbolOf_of_mentioned {before rest : List Event} (ho : o.Orderly (before ++ rest))
    {event : Event} (hm : event ∈ before) {n : NodeId} (hn : event.mentions? = some n) :
    (o.run (before ++ rest)).symbolOf n = (o.run before).symbolOf n := by
  rw [orderly_append] at ho
  obtain ⟨found, hfound⟩ := Option.isSome_iff_exists.mp (symbols_of_mentioned ho.1 hm hn)
  rw [run_append, symbolOf, symbolOf, symbols_run ho.2 hfound, hfound]

/-- A declaration gets the next number. -/
theorem getElem?_declared_step {event : Event} {d : Definition} (hd : event.declares? = some d)
    (hp : o.Permits event) :
    ∃ node, (o.step event).declared[o.declared.length]? = some (node, d) := by
  obtain ⟨⟨hframes, -⟩, -⟩ := of_declares hd hp
  cases hf : o.frames with
  | nil => exact absurd hf hframes
  | cons frame outer =>
    refine ⟨frame.node, ?_⟩
    simp [declared_step, Event.declaration?, hd, hf]

/-- A declaration in a cell is the one that was made where the cell was filled. -/
theorem Scoped.declaration_of_slot {events : List Event} (hs : (o.run events).Scoped)
    (ho : o.Orderly events) {before rest : List Event} {event : Event}
    (hsplit : events = before ++ event :: rest) {x : Definition} (hx : event.declares? = some x)
    {place : SymbolRef} (hslot : ((o.run events).symbolOf x.id).map Entry.place = some place) :
    (o.run before).declared.length = place ∧
      ∃ node, (o.run events).declared[place]? = some (node, x) := by
  rw [hsplit, orderly_append] at ho
  obtain ⟨home, hplace⟩ := getElem?_declared_step hx ho.2.1
  have hdecl := getElem?_declared_run rest hplace
  rw [← run_cons, ← run_append, ← hsplit] at hdecl
  obtain ⟨rfl, -⟩ := hs.own_of_place hdecl hslot
  exact ⟨rfl, home, hdecl⟩

theorem bind_const_eq_some {α β : Type} {x : Option α} {y : Option β} {b : β} :
    (x.bind fun _ => y) = some b ↔ x.isSome ∧ y = some b := by
  cases x <;> simp

section Program

variable {p : Program} {before rest : List Event} {event : Event}
  (ho : o.Orderly p.events) (hsplit : p.events = before ++ event :: rest)

include ho hsplit

theorem marks_exitData_iff {x : DataDef} (he : event = .exitData x) (place : SymbolRef) :
    (o.run before).marks (.exitData x) = some place ↔
      (o.run p.events).Supplies place (.exitData x) := by
  subst he
  have hnamed : .enterDecl x.decl ∈ before := p.announced _ _ _ hsplit _ (by simp [Event.needs])
  rw [hsplit] at ho ⊢
  have hcell : (o.run (before ++ .exitData x :: rest)).symbolOf x.decl.id
      = (o.run before).symbolOf x.decl.id := symbolOf_of_mentioned ho hnamed rfl
  rw [orderly_append] at ho
  have htype : ∀ init, x.init = some init →
      (o.run (before ++ .exitData x :: rest)).typeOf init = (o.run before).typeOf init := by
    intro init hi
    rw [run_append]
    exact (ho.2.1.2 init hi).typeOf_run ho.2
  rw [marks, bind_const_eq_some, answer_exitData_isSome, Supplies, hcell, and_comm]
  refine and_congr_right fun _ => exists_congr fun init => exists_congr fun value => ?_
  refine and_congr_right fun hi => ?_
  rw [htype init hi]

theorem marks_exitAssign_iff {a : Assignment} (he : event = .exitAssign a) (place : SymbolRef) :
    (o.run before).marks (.exitAssign a) = some place ↔
      (o.run p.events).Supplies place (.exitAssign a) := by
  subst he
  have hnamed : .enterAssign a ∈ before := p.announced _ _ _ hsplit _ (by simp [Event.needs])
  rw [hsplit] at ho ⊢
  have hcell := symbolOf_of_mentioned ho hnamed rfl
  rw [orderly_append] at ho
  have htype : (o.run (before ++ .exitAssign a :: rest)).typeOf a.value
      = (o.run before).typeOf a.value := by
    rw [run_append]
    exact ho.2.1.2.typeOf_run ho.2
  rw [marks, bind_const_eq_some, Supplies, hcell, htype]
  cases hslot : (o.run before).symbolOf a.id with
  | none => simp
  | some entry =>
    rw [answer_exitAssign_isSome hslot]
    simp [and_comm]

theorem marks_enterParam_iff (hv : o.Valid) {f : Function} {x : Decl} (he : event = .enterParam f x)
    {place : SymbolRef} {node : NodeId} {d : Definition}
    (hd : (o.run p.events).declared[place]? = some (node, d))
    (hself : (o.run p.events).symbolOf d.id = some ⟨place, d⟩) :
    (o.run before).marks (.enterParam f x) = some place ↔
      (o.run p.events).Supplies place (.enterParam f x) := by
  subst he
  rw [marks, Supplies, Option.some.injEq]
  constructor
  · intro hk
    have hlater := ho
    rw [hsplit, orderly_append] at hlater
    obtain ⟨home, hplace⟩ := getElem?_declared_step rfl hlater.2.1
    have hdecl := getElem?_declared_run rest hplace
    rw [← run_cons, ← run_append, ← hsplit, hk, hd] at hdecl
    cases hdecl
    exact congrArg (Option.map Entry.place) hself
  · intro hslot
    exact ((hv.run ho).names.declaration_of_slot ho hsplit rfl hslot).1

/-- **What an event marks, it supplies with a value**, by all that is known in the end. -/
theorem marks_iff_supplies (hv : o.Valid) {place : SymbolRef} {node : NodeId} {d : Definition}
    (hd : (o.run p.events).declared[place]? = some (node, d))
    (hself : (o.run p.events).symbolOf d.id = some ⟨place, d⟩) :
    (o.run before).marks event = some place ↔ (o.run p.events).Supplies place event := by
  cases event with
  | exitData x => exact marks_exitData_iff ho hsplit rfl place
  | exitAssign a => exact marks_exitAssign_iff ho hsplit rfl place
  | enterParam f x => exact marks_enterParam_iff ho hsplit hv rfl hd hself
  | _ => simp [marks, Supplies]

end Program

end Outline

/-- **The marks of bound symbols after a check from nothing**: exactly those are marked that some
event of the program supplies with a value. -/
theorem Pass.isInit_check {p : Program} {literals : Cells Ty}
    (ho : (Outline.start literals).Orderly p.events) (hl : p.untyped? literals = none) {s : Pass}
    (h : (Pass.check p).run (Pass.start literals) = .ok () s) {place : SymbolRef} {node : NodeId}
    {d : Definition}
    (hd : ((Outline.start literals).run p.events).declared[place]? = some (node, d))
    (hself : ((Outline.start literals).run p.events).symbolOf d.id = some ⟨place, d⟩) :
    (s.store.symbol place).isInit = true ↔
      ∃ event ∈ p.events, ((Outline.start literals).run p.events).Supplies place event := by
  rw [Pass.marks_check ho hl h place]
  have hv := Outline.Valid.start literals
  constructor
  · intro hmark
    obtain ⟨before, event, rest, hsplit, hmark⟩ := hmark
    exact ⟨event, by simp [hsplit], (Outline.marks_iff_supplies ho hsplit hv hd hself).mp hmark⟩
  · intro hsupplies
    obtain ⟨event, hm, hsupplies⟩ := hsupplies
    obtain ⟨before, rest, hsplit⟩ := List.append_of_mem hm
    exact ⟨before, event, rest, hsplit,
      (Outline.marks_iff_supplies ho hsplit hv hd hself).mpr hsupplies⟩

/-! ## After an analysis -/

/-- The event gives a value to the symbol, by what the store holds: it is a parameter with the
symbol in its cell, or data with the symbol in its cell and an initial value whose type fits the
declared one, or an assignment with the symbol in its cell and a value whose type fits that of the
symbol. -/
def Store.Supplies (store : Store) (ref : SymbolRef) : Event → Prop
  | .enterParam _ d => store.notes.symbols.get d.id = some ref
  | .exitData d => store.notes.symbols.get d.decl.id = some ref ∧
    ∃ init value, d.init = some init ∧ store.notes.typeOf init = some value ∧
      Fits d.decl.type.named value
  | .exitAssign a => store.notes.symbols.get a.id = some ref ∧
    ∃ value, store.notes.typeOf a.value = some value ∧ Fits (store.symbol ref).type value
  | _ => False

theorem Program.mem_of_needs {p : Program} {event first : Event} (hm : event ∈ p.events)
    (hneeds : first ∈ event.needs) : first ∈ p.events := by
  obtain ⟨before, rest, hsplit⟩ := List.append_of_mem hm
  rw [hsplit]
  exact List.mem_append_left _ (p.announced before event rest hsplit first hneeds)

namespace Outline

variable {o : Outline} {p : Program} {s : Pass}

/-- The target of an assignment is data. -/
theorem cls_of_assigned (ho : o.Orderly p.events) {a : Assignment} (hm : .exitAssign a ∈ p.events)
    {entry : Entry} (hslot : (o.run p.events).symbolOf a.id = some entry) :
    entry.definition.cls = .data := by
  have hname : .enterAssign a ∈ p.events := Program.mem_of_needs hm (by simp [Event.needs])
  obtain ⟨before, rest, hsplit⟩ := List.append_of_mem hname
  rw [hsplit] at ho hslot
  rw [orderly_append] at ho
  have hcell : ((o.run before).step (.enterAssign a)).symbols.get a.id
      = some (resolution (o.run before).scope a.target .target).toOption :=
    (@of_refers _ (.enterAssign a) ⟨a.id, a.target, .target⟩ rfl).1
  rw [run_append, run_cons, symbolOf, symbols_run ho.2.2 hcell, Option.join_some] at hslot
  cases hr : resolution (o.run before).scope a.target .target with
  | error e =>
    rw [hr] at hslot
    cases hslot
  | ok found =>
    rw [hr] at hslot
    cases hslot
    exact (resolution_ok.mp hr).2

/-- What is supplied with a value is data. If it is by an initial value, that is its own. -/
theorem data_of_supplied (hs : (o.run p.events).Scoped) (ho : o.Orderly p.events)
    {place : SymbolRef} {node : NodeId} {d : Definition}
    (hd : (o.run p.events).declared[place]? = some (node, d)) {event : Event} (hm : event ∈ p.events)
    (hsupplies : (o.run p.events).Supplies place event) :
    d.cls = .data ∧ ∀ x, event = .exitData x → d = .data x.decl := by
  -- in the end a cell still names the declaration that filled it, since no node occurs twice
  have hown : ∀ {first : Event} {x : Decl}, first ∈ p.events → first.declares? = some (.data x) →
      ((o.run p.events).symbolOf x.id).map Entry.place = some place → d = .data x := by
    intro first x hfirst hx hslot
    obtain ⟨before, rest, hsplit⟩ := List.append_of_mem hfirst
    obtain ⟨-, home, hdecl⟩ := hs.declaration_of_slot ho hsplit hx hslot
    rw [hd] at hdecl
    cases hdecl
    rfl
  cases event with
  | enterParam f x =>
    have hx := hown hm rfl hsupplies
    exact ⟨by rw [hx]; rfl, by simp⟩
  | exitData x =>
    have hdecl : .enterDecl x.decl ∈ p.events := Program.mem_of_needs hm (by simp [Event.needs])
    have hx := hown hdecl rfl hsupplies.1
    refine ⟨by rw [hx]; rfl, ?_⟩
    intro y hy
    cases hy
    exact hx
  | exitAssign a =>
    obtain ⟨entry, value, hslot, rfl, -, -⟩ := hsupplies
    obtain ⟨⟨home, hentry⟩, -⟩ := hs.slot hslot
    rw [hd] at hentry
    cases hentry
    exact ⟨cls_of_assigned ho hm hslot, by simp⟩
  | _ => exact hsupplies.elim

/-- What supplies a declaration with a value, as the store has it. -/
theorem Charts.supplies_grown (h : o.Charts p s) (store : Store)
    (hout : o.Outcome p store (store.grown p s.store)) {event : Event} (hm : event ∈ p.events)
    (place : SymbolRef) :
    (store.grown p s.store).Supplies (store.symbols.size + place) event ↔ o.Supplies place event := by
  -- a cell of the grown store holds a place shifted by the symbols below
  have hcell : ∀ {x : Event}, x ∈ p.events → ∀ {n : NodeId}, x.mentions? = some n →
      ((store.grown p s.store).notes.symbols.get n = some (store.symbols.size + place) ↔
        (o.symbolOf n).map Entry.place = some place) := by
    intro x hx n hn
    rw [hout.symbols x hx n hn]
    cases o.symbolOf n with
    | none => simp
    | some entry => simp
  cases event with
  | enterParam f d => exact hcell hm rfl
  | exitData d =>
    have hdecl : .enterDecl d.decl ∈ p.events := Program.mem_of_needs hm (by simp [Event.needs])
    refine and_congr (hcell hdecl rfl) (exists_congr fun init => exists_congr fun value => ?_)
    refine and_congr_right fun hi => ?_
    rw [hout.types init (Program.mem_of_needs hm (by simp [Event.needs, hi]))]
  | exitAssign a =>
    have hname : .enterAssign a ∈ p.events := Program.mem_of_needs hm (by simp [Event.needs])
    have hvalue : .enterExpr a.value ∈ p.events := Program.mem_of_needs hm (by simp [Event.needs])
    have hslot : (store.grown p s.store).notes.symbols.get a.id
        = some (store.symbols.size + place) ↔ _ := hcell hname rfl
    rw [Store.Supplies, Outline.Supplies, hslot, hout.types _ hvalue]
    cases hs : o.symbolOf a.id with
    | none => simp
    | some entry =>
      obtain ⟨⟨node, hd⟩, -⟩ := h.names.slot hs
      simp only [Option.map_some, Option.some.injEq, exists_and_left, exists_eq_left']
      refine and_congr_right fun hplace => ?_
      rw [← hplace, Store.symbol_grown, (h.describes.symbol hd).2]
  | _ => exact Iff.rfl

end Outline

/-- **The mark is exact.** In a program in which no node occurs twice, a symbol that was bound is
marked as having a value exactly if it is that of a parameter, or of data whose own initial value
fits the declared type, or if a value that fits its type is assigned to it. So functions are never
marked, and data of type `nothing` only as a parameter; and where a declaration was refused, so that
its cell is empty, what marked a symbol is not the initial value of that declaration. -/
theorem analyze_marks_supplied {store after : Store} {p : Program} {a : Analysis}
    (hn : p.nodes.Nodup) (h : store.analyze p = (.ok a, after)) :
    ∀ ref ∈ after.boundSince store,
      ((after.symbol ref).isInit = true ↔ ∃ event ∈ p.events, after.Supplies ref event) ∧
      ((after.symbol ref).cls = .function → (after.symbol ref).isInit = false) ∧
      ((after.symbol ref).type = .nothing →
        (∀ f d, .enterParam f d ∈ p.events → after.notes.symbols.get d.id ≠ some ref) →
        (after.symbol ref).isInit = false) ∧
      ∀ d, .exitData d ∈ p.events → after.notes.symbols.get d.decl.id = none →
        (after.symbol ref).isInit = true →
        ∃ event ∈ p.events, event ≠ .exitData d ∧ after.Supplies ref event := by
  obtain ⟨ho, hl, -, -, hout⟩ := Store.analyze_outcome hn h
  obtain ⟨s, hcharts, -, hrun, -, rfl⟩ := Store.analyze_charts hn h
  intro ref hm
  -- the symbols bound since are those of the check from nothing, in other places
  rw [Store.boundSince_grown] at hm
  obtain ⟨place, hplace, rfl⟩ := List.mem_map.mp hm
  obtain ⟨node, d, hd, hself⟩ := hcharts.mem_bound.mp hplace
  have hiff : ((store.grown p s.store).symbol (store.symbols.size + place)).isInit = true ↔
      ∃ event ∈ p.events, (store.grown p s.store).Supplies (store.symbols.size + place) event := by
    rw [Store.symbol_grown, Pass.isInit_check ho hl hrun hd hself]
    refine exists_congr fun event => and_congr_right fun hm => ?_
    exact (hcharts.supplies_grown store hout hm place).symm
  have hdata : ∀ event ∈ p.events,
      (store.grown p s.store).Supplies (store.symbols.size + place) event →
      d.cls = .data ∧ ∀ x, event = .exitData x → d = .data x.decl := by
    intro event hm hsupplies
    exact Outline.data_of_supplied hcharts.names ho hd hm
      ((hcharts.supplies_grown store hout hm place).mp hsupplies)
  obtain ⟨hdef, htype⟩ := hcharts.describes.symbol hd
  refine ⟨hiff, ?_, ?_, ?_⟩
  · intro hcls
    rw [Bool.eq_false_iff, ne_eq, hiff]
    intro hsupplied
    obtain ⟨event, hm, hsupplies⟩ := hsupplied
    rw [Store.symbol_grown, Symbol.cls_eq, hdef, (hdata event hm hsupplies).1] at hcls
    cases hcls
  · intro hnothing hparam
    rw [Bool.eq_false_iff, ne_eq, hiff]
    intro hsupplied
    obtain ⟨event, hm, hsupplies⟩ := hsupplied
    cases event with
    | enterParam f x => exact hparam f x hm hsupplies
    | exitData x =>
      have hown : d = .data x.decl := (hdata _ hm hsupplies).2 x rfl
      obtain ⟨-, init, value, -, -, hfits⟩ := hsupplies
      rw [Store.symbol_grown, htype, hown] at hnothing
      exact not_fits_nothing value (hnothing ▸ hfits)
    | exitAssign b =>
      obtain ⟨-, value, -, hfits⟩ := hsupplies
      rw [hnothing] at hfits
      exact not_fits_nothing value hfits
    | _ => exact hsupplies.elim
  · intro x hm hnone hinit
    obtain ⟨event, hevent, hsupplies⟩ := hiff.mp hinit
    refine ⟨event, hevent, ?_, hsupplies⟩
    intro heq
    subst heq
    -- supplied by a declaration means through its cell, which is empty here
    cases hnone.symm.trans hsupplies.1

/-- Data with an initial value, data that is declared again with one and assigned a string, and a
function with a parameter. -/
def supplying : Program :=
  let at' (line column : UInt32) : Position := ⟨"supply.dk", line, column⟩
  let int (line column : UInt32) : Token := ⟨.integerType, "int", at' line column⟩
  let one (id : NodeId) (line column : UInt32) : Expr :=
    .literal id ⟨.integerLiteral, "1", at' line column⟩ (some .int)
  { id := 0
    file := "supply.dk"
    items :=
      [.data { decl := ⟨1, false, int 1 1, ⟨"n", at' 1 5⟩⟩, init := some (one 2 1 9) },
      .data { decl := ⟨3, false, int 2 1, ⟨"m", at' 2 5⟩⟩, init := none },
      .function
        { id := 4
          isIterator := false
          returns := int 3 6
          name := ⟨"f", at' 3 10⟩
          params := [⟨5, false, int 3 12, ⟨"k", at' 3 16⟩⟩]
          body := .mk 6 ⟨.leftBrace, "\x7b", at' 3 19⟩
            [.ret ⟨.returnWord, "return", at' 3 21⟩ (some (one 7 3 28))] },
      .start
        { keyword := ⟨.startWord, "start", at' 4 1⟩
          body := .mk 8 ⟨.leftBrace, "\x7b", at' 4 7⟩
            [.data { decl := ⟨9, false, int 5 3, ⟨"m", at' 5 7⟩⟩, init := some (one 10 5 11) },
            .assign
              { id := 11
                target := ⟨"m", at' 6 3⟩
                value := .literal 12 ⟨.stringLiteral, "\"s\"", at' 6 7⟩ (some .string) }] }] }

/-- The first of the data and the parameter are marked. The other data is not: the value of its
second declaration is not its own, and a string does not fit. -/
theorem supplying_marked :
    supplying.nodes.Nodup ∧ ∃ a after, ({} : Store).analyze supplying = (.ok a, after) ∧
      after.boundSince {} = [2, 1, 0, 3] ∧
      (∃ event ∈ supplying.events, after.Supplies 0 event) ∧
      (∃ event ∈ supplying.events, after.Supplies 3 event) ∧
      (∀ event ∈ supplying.events, ¬ after.Supplies 1 event) ∧
      (after.symbol 2).isInit = false := by
  have hn : supplying.nodes.Nodup := by decide
  have hl : supplying.untyped? ({} : Store).notes.literals = none := rfl
  have hbound : (({} : Store).analyze supplying).2.boundSince {} = [2, 1, 0, 3] := by decide +kernel
  have hfirst : ((({} : Store).analyze supplying).2.symbol 0).isInit = true := by decide +kernel
  have hsecond : ((({} : Store).analyze supplying).2.symbol 1).isInit = false := by decide +kernel
  have hcls : ((({} : Store).analyze supplying).2.symbol 2).cls = .function := by decide +kernel
  have hparam : ((({} : Store).analyze supplying).2.symbol 3).isInit = true := by decide +kernel
  obtain ⟨s, -, -, hok⟩ := Store.analyze_ok hn (by decide) hl
  rw [hok] at hbound hfirst hsecond hcls hparam
  have hmarks := analyze_marks_supplied hn hok
  rw [hbound] at hmarks
  refine ⟨hn, _, _, hok, hbound, (hmarks 0 (by simp)).1.mp hfirst, (hmarks 3 (by simp)).1.mp hparam,
    ?_, (hmarks 2 (by simp)).2.1 hcls⟩
  intro event hm hsupplies
  rw [(hmarks 1 (by simp)).1.mpr ⟨event, hm, hsupplies⟩] at hsecond
  cases hsecond

end Semant
