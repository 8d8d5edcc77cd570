import Semant.Proofs.Changes
import Semant.Proofs.Outline.Run
import Semant.Proofs.Scoping

/-!
# Marks and signatures of symbols

A symbol is marked as having a value at three kinds of event: where a parameter is declared, where
the initial value of data was read, and where the value of an assignment was. `Outline.marks` says
which declaration an event marks. A symbol is signed where the parameters of its function end.

Everything else leaves marks and signatures alone. There is one lemma for each function of the
check, about whatever is looked at in symbols (`Pass.Same`), as long as the function does not change
it. The invariants of `Stable` would not do here: they bear any marking, and a marking is what is
excluded. Since a mark is never taken back, a symbol is marked in the end if some event marked it
(`Pass.marks_check`). Data is not signed (`Pass.unsigned_check`).
-/

set_option autoImplicit false

namespace Semant

/-! ## Steps that leave something alone -/

section View

variable {α : Type} {view : Symbol → α}

/-- A change that leaves alone what is looked at leaves it alone everywhere. -/
theorem Store.view_modifySymbol (store : Store) (ref r : SymbolRef) {f : Symbol → Symbol}
    (hf : ∀ x, view (f x) = view x) :
    view ((store.modifySymbol ref f).symbol r) = view (store.symbol r) := by
  rw [symbol_modifySymbol_eq]
  split
  · exact hf _
  · rfl

/-- A new symbol that looks like an empty place changes nothing, since its place was empty. -/
theorem Store.view_addSymbol (store : Store) {symbol : Symbol} (h : view symbol = view default)
    (r : SymbolRef) : view ((store.addSymbol symbol).symbol r) = view (store.symbol r) := by
  rw [symbol_addSymbol]
  split
  · rename_i hr
    rw [h, store.symbol_of_size_le (Nat.le_of_eq hr.symm)]
  · rfl

end View

/-- A symbol that is marked is marked, and no other is. -/
theorem Store.isInit_markInit (store : Store) {ref : SymbolRef} (h : ref < store.symbols.size)
    (r : SymbolRef) :
    ((store.modifySymbol ref fun x => { x with isInit := true }).symbol r).isInit
      = ((store.symbol r).isInit || decide (ref = r)) := by
  rw [symbol_modifySymbol_eq]
  by_cases hr : ref = r
  · subst hr
    simp [h]
  · simp [hr]

/-- The place of a new symbol was empty, and an empty place is not marked. -/
theorem Store.isInit_addSymbol (store : Store) (symbol : Symbol) (r : SymbolRef) :
    ((store.addSymbol symbol).symbol r).isInit
      = ((store.symbol r).isInit || (symbol.isInit && decide (store.symbols.size = r))) := by
  rw [symbol_addSymbol]
  by_cases hr : r = store.symbols.size
  · have hempty : (store.symbol r).isInit = false := by
      rw [store.symbol_of_size_le (Nat.le_of_eq hr.symm)]
      rfl
    simp [hr, hr ▸ hempty]
  · simp [hr, Ne.symm hr]

namespace Pass

/-- Symbols look the same. -/
def Same {α : Type} (view : Symbol → α) (s t : Pass) : Prop :=
  ∀ ref, view (t.store.symbol ref) = view (s.store.symbol ref)

section Same

variable {α : Type} {view : Symbol → α}

theorem Takes.same {β : Type} {x : PassM β} (h : Takes (Same view) x) (s : Pass) :
    Same view s (after (x.run s)) := by
  have hall := h s
  generalize after (x.run s) = t at hall
  induction hall with
  | refl => exact fun _ => rfl
  | tail _ hstep ih => exact fun ref => (hstep ref).trans (ih ref)

theorem same_note (entry : LogEntry) : Takes (Same view) (note entry) :=
  .change fun _ _ => rfl

theorem same_report (severity : Severity) (position : Position) (finding : Finding) :
    Takes (Same view) (report severity position finding) :=
  .report (fun _ _ _ => .single fun _ => rfl) _ _ _

theorem same_record {ε : Type} (subject : Subject)
    (fill : Annotations → Except ε Annotations) : Takes (Same view) (record subject fill) := by
  unfold record
  apply Takes.look
  intro s
  cases fill s.store.notes with
  | error e => exact .refl
  | ok notes => exact .single fun _ => rfl

theorem same_recordType (e : Expr) (type : Ty) : Takes (Same view) (recordType e type) :=
  (same_note _).bind fun _ => same_record _ _

theorem same_typeOf (e : Expr) : Takes (Same view) (typeOf e) :=
  .look fun _ => .refl

theorem same_symbolOf (node : NodeId) : Takes (Same view) (symbolOf node) :=
  .look fun _ => .refl

theorem same_activeScope : Takes (Same view) activeScope := by
  unfold activeScope
  apply Takes.look
  intro s
  cases s.stack.active with
  | none => exact .refl
  | some ref => exact .refl

theorem same_openScope (node : String) : Takes (Same view) (openScope node) := by
  unfold openScope createScope
  refine Takes.bind ?_ fun ref => ?_
  · apply Takes.look
    intro s
    exact (Takes.bind (.change fun _ _ => rfl) fun _ => (same_note _).bind fun _ => .value _) s
  · apply Takes.look
    intro s
    exact .single fun _ => rfl

theorem same_leaveScope : Takes (Same view) leaveScope := by
  unfold leaveScope
  apply Takes.look
  intro s
  cases s.stack.active with
  | none => exact .refl
  | some ref => exact .single fun _ => rfl

/-! ### Names -/

theorem same_makeSymbol {symbol : Symbol} (h : view symbol = view default) :
    Takes (Same view) (makeSymbol symbol) := by
  unfold makeSymbol
  apply Takes.look
  intro s
  exact .single fun ref => s.store.view_addSymbol h ref

theorem same_bindAt (node : NodeId) (ref : SymbolRef) (subject : Subject) :
    Takes (Same view) (bindAt node ref subject) := by
  unfold bindAt Pass.bind
  refine same_activeScope.bind fun scope => Takes.bind ?_ fun bound => ?_
  · apply Takes.look
    intro s
    dsimp only
    cases s.store.find? scope (s.store.symbol ref).name with
    | some old => exact ((same_report _ _ _).bind fun _ => Takes.value _) s
    | none => exact .single fun _ => rfl
  · cases bound with
    | none => exact .value _
    | some ref => exact (same_record _ _).bind fun _ => .value _

theorem same_announce (decl : Decl) (symbol : Symbol) (ref : SymbolRef) :
    Takes (Same view) (do
      if symbol.type = .nothing then
        reportError symbol.position (.semantic (.nothingData symbol.name))
      bindAt decl.id ref (.declaration decl.text)) := by
  by_cases hnothing : symbol.type = .nothing
  · simp only [if_pos hnothing]
    exact (same_report _ _ _).bind fun _ => same_bindAt _ _ _
  · simp only [if_neg hnothing]
    exact same_bindAt _ _ _

theorem same_declare (decl : Decl) {symbol : Symbol} (h : view symbol = view default) :
    Takes (Same view) (declare decl symbol) := by
  rw [declare_eq]
  exact (same_makeSymbol h).bind (same_announce decl symbol)

theorem same_declareParam {decl : Decl} (h : ∀ type, view (.ofParam decl type) = view default) :
    Takes (Same view) (declareParam decl) := by
  unfold declareParam
  refine (Takes.lift _).bind fun type => ?_
  apply Takes.look
  intro s
  cases s.header with
  | none => exact .refl
  | some header => exact (Takes.bind (.change fun _ _ => rfl) fun _ => same_declare decl (h type)) s

theorem same_declareFunction {f : Function} (h : ∀ type, view (.ofFunction f type) = view default) :
    Takes (Same view) (declareFunction f) := by
  intro s
  cases hs : s.header with
  | some unfinished =>
    unfold declareFunction
    rw [EStateM.run_bind, EStateM.run_get]
    dsimp only
    rw [hs]
    exact .refl
  | none =>
    rw [declareFunction_eq f hs]
    refine ((Takes.lift _).bind fun returns => (same_makeSymbol (h returns)).bind fun ref => ?_) s
    refine (same_bindAt _ _ _).bind fun bound => ?_
    exact Takes.bind (.change fun _ _ => rfl) fun _ => .value _

theorem same_finishSignature (h : ∀ x signature, view { x with signature } = view x) (f : Function) :
    Takes (Same view) (finishSignature f) := by
  unfold finishSignature
  apply Takes.look
  intro s
  cases s.header with
  | none => exact .refl
  | some signature =>
    refine (Takes.bind (.change fun _ _ => rfl) fun _ => ?_) s
    refine (same_note _).bind fun _ => (same_record _ _).bind fun _ => ?_
    refine (same_symbolOf _).bind fun slot => ?_
    cases slot with
    | none => exact .value _
    | some ref =>
      unfold signSymbol
      apply Takes.look
      intro s
      cases (s.store.symbol ref).signature with
      | some old => exact .refl
      | none => exact .single fun r => s.store.view_modifySymbol ref r fun x => h x _

theorem same_resolveAt (h : ∀ x refs, view { x with refs } = view x) (node : NodeId)
    (name : Identifier) (use : Use) (subject : Subject) :
    Takes (Same view) (resolveAt node name use subject) := by
  unfold resolveAt resolve
  refine same_activeScope.bind fun scope => Takes.bind ?_ fun found => ?_
  · apply Takes.look
    intro s
    dsimp only
    cases s.store.find? scope name.name with
    | none => exact .refl
    | some ref =>
      by_cases hfits : (s.store.symbol ref).cls = use.expects
      · simp only [if_pos hfits]
        refine (Takes.bind (.change fun t r => ?_) fun _ => (same_note _).bind fun _ => .value _) s
        exact t.store.view_modifySymbol ref r fun x => h x _
      · simp only [if_neg hfits]
        exact .refl
  · cases found with
    | ok ref => exact same_record _ _
    | error e => exact same_report _ _ _

/-! ### Types -/

theorem same_apply (position : Position) (checked : Except TypeError Checked) :
    Takes (Same view) (apply position checked) := by
  unfold apply
  cases checked with
  | error e => exact (same_report _ _ _).bind fun _ => .value _
  | ok result =>
    obtain ⟨type, warning⟩ := result
    cases warning with
    | none => exact .value _
    | some warning => exact (same_report _ _ _).bind fun _ => .value _

theorem same_typeBy (e : Expr) (position : Position) (checked : Except TypeError Checked) :
    Takes (Same view) (typeBy e position checked) := by
  unfold typeBy
  refine (same_apply position checked).bind fun type => ?_
  cases type with
  | none => exact .value _
  | some type => exact same_recordType e type

theorem same_checkReturn (keyword : Token) (value : Option Expr) :
    Takes (Same view) (checkReturn keyword value) := by
  unfold checkReturn
  apply Takes.look
  intro s
  cases s.function with
  | none => exact .refl
  | some f =>
    refine ((Takes.lift _).bind fun returns => ?_) s
    by_cases hnothing : returns = .nothing
    · cases value with
      | none =>
        simp only [ne_eq, hnothing, not_true, if_false]
        exact .value _
      | some value =>
        simp only [if_pos hnothing]
        exact same_report _ _ _
    · cases value with
      | none =>
        simp only [ne_eq, hnothing, not_false_eq_true, if_true]
        exact same_report _ _ _
      | some value =>
        simp only [if_neg hnothing]
        refine (same_typeOf value).bind fun type => ?_
        cases type with
        | none => exact .value _
        | some type => exact (same_apply _ _).bind fun _ => .value _

theorem same_checkCall (e : Expr) (callee : Identifier) (args : List Expr) :
    Takes (Same view) (checkCall e callee args) := by
  unfold checkCall
  refine (same_symbolOf _).bind fun slot => ?_
  cases slot with
  | none => exact .value _
  | some ref =>
    apply Takes.look
    intro s
    dsimp only
    cases (s.store.symbol ref).signature with
    | none => exact .refl
    | some signature =>
      dsimp only
      cases signature.validate (args.map s.store.notes.typeOf) with
      | ok u => exact same_recordType e _ s
      | error fault => exact ((same_report _ _ _).bind fun _ => same_recordType e _) s

theorem same_markInit (h : ∀ x, view { x with isInit := true } = view x) (ref : SymbolRef) :
    Takes (Same view) (markInit ref) :=
  .change fun s r => s.store.view_modifySymbol ref r h

theorem same_checkInit (h : ∀ x, view { x with isInit := true } = view x) (d : DataDef) :
    Takes (Same view) (checkInit d) := by
  unfold checkInit
  refine (Takes.lift _).bind fun target => ?_
  by_cases hnothing : target = .nothing
  · simp only [if_pos hnothing]
    exact .value _
  simp only [if_neg hnothing]
  cases d.init with
  | none => exact .value _
  | some init =>
    refine (same_typeOf init).bind fun value => ?_
    cases value with
    | none => exact .value _
    | some value =>
      refine (same_apply _ _).bind fun type => ?_
      cases type with
      | none => exact .value _
      | some type =>
        refine (same_symbolOf _).bind fun slot => ?_
        cases slot with
        | none => exact .value _
        | some ref => exact same_markInit h ref

theorem same_checkAssign (h : ∀ x, view { x with isInit := true } = view x) (a : Assignment) :
    Takes (Same view) (checkAssign a) := by
  unfold checkAssign
  refine (same_symbolOf _).bind fun slot => ?_
  cases slot with
  | none => exact .value _
  | some ref =>
    refine (same_typeOf _).bind fun value => ?_
    cases value with
    | none => exact .value _
    | some value =>
      apply Takes.look
      intro s
      refine ((same_apply _ _).bind fun type => ?_) s
      cases type with
      | none => exact .value _
      | some type => exact same_markInit h ref

end Same

end Pass

/-- The event may mark a symbol. -/
def Event.isMarking : Event → Bool
  | .enterParam .. | .exitData _ | .exitAssign _ => true
  | _ => false

/-- The event may sign a symbol. -/
def Event.isSigning : Event → Bool
  | .exitParams _ => true
  | _ => false

/-- What is looked at in symbols has nothing to do with what the event does to them. -/
structure Event.Spares {α : Type} (view : Symbol → α) (event : Event) : Prop where
  counting : ∀ x refs, view { x with refs } = view x
  /-- A new symbol has no signature, and is marked only if it is a parameter. -/
  adding : ∀ x : Symbol, x.signature = none → (x.isInit = true → event.isMarking = true) →
    view x = view default
  marking : event.isMarking = true → ∀ x, view { x with isInit := true } = view x
  signing : event.isSigning = true → ∀ x signature, view { x with signature } = view x

/-- **An event leaves alone what it has nothing to do with.** -/
theorem Pass.same_visit {α : Type} {view : Symbol → α} {event : Event} (h : event.Spares view) :
    Takes (Same view) (visit event) := by
  unfold visit
  -- `Spares` says of four kinds of step that the view does not see them; every event is made of
  -- these and of steps that no view sees
  cases event with
  | enterParam f d =>
    refine Takes.bind (same_declareParam fun type => ?_) fun _ => .value _
    exact h.adding _ rfl fun _ => rfl
  | exitData d => exact same_checkInit (h.marking rfl) d
  | exitAssign a => exact same_checkAssign (h.marking rfl) a
  | enterProgram p => exact (same_openScope _).bind fun _ => same_record _ _
  | enterBlock b => exact (same_openScope _).bind fun _ => same_record _ _
  | enterFunction f =>
    have hnew : ∀ type, view (.ofFunction f type) = view default :=
      fun type => h.adding _ rfl fun hinit => by cases hinit
    refine (same_declareFunction hnew).bind fun _ => (same_openScope _).bind fun _ => ?_
    exact (same_record _ _).bind fun _ => .change fun _ _ => rfl
  | exitProgram p | exitBlock b => exact same_leaveScope.bind fun _ => .value _
  | exitFunction f => exact same_leaveScope.bind fun _ => .change fun _ _ => rfl
  | enterStart start => exact .change fun _ _ => rfl
  | enterDecl d =>
    refine Takes.bind ((Takes.lift _).bind fun type => same_declare d ?_) fun _ => .value _
    exact h.adding _ rfl fun hinit => by cases hinit
  | exitParams f => exact same_finishSignature (h.signing rfl) f
  | exitReturn keyword value => exact same_checkReturn keyword value
  | exitLiteral e token =>
    refine (same_typeOf e).bind fun type => ?_
    cases type with
    | none => exact .fail _
    | some type => exact .value _
  | enterAssign a => exact same_resolveAt h.counting _ _ _ _
  | enterVariable e name => exact same_resolveAt h.counting _ _ _ _
  | enterCall e callee args => exact same_resolveAt h.counting _ _ _ _
  | exitVariable e name =>
    refine (same_symbolOf _).bind fun slot => ?_
    cases slot with
    | none => exact .value _
    | some ref => exact .look fun s => same_recordType e _ s
  | exitCall e callee args => exact same_checkCall e callee args
  | exitBinary e op token lhs rhs =>
    refine (same_typeOf lhs).bind fun left => ?_
    cases left with
    | none => exact .value _
    | some left =>
      refine (same_typeOf rhs).bind fun right => ?_
      cases right with
      | none => exact .value _
      | some right => exact same_typeBy _ _ _
  | exitUnary e op token operand =>
    refine (same_typeOf operand).bind fun type => ?_
    cases type with
    | none => exact .value _
    | some type => exact same_typeBy _ _ _
  | exitCast e target operand =>
    refine (Takes.lift _).bind fun type => (same_typeOf operand).bind fun source => ?_
    cases source with
    | none => exact .value _
    | some source => exact same_typeBy _ _ _
  | exitGrouped e inner =>
    refine (same_typeOf inner).bind fun type => ?_
    cases type with
    | none => exact .value _
    | some type => exact same_recordType e type
  | exitFormat e token args => exact same_recordType e _
  | _ => exact .value _

/-! ## What an event marks -/

namespace Outline

variable {o : Outline} {s : Pass}

/-- The declaration that an event marks, by its number. -/
def marks (o : Outline) : Event → Option SymbolRef
  | .enterParam _ _ => some o.declared.length
  | .exitData d => (o.answer (.exitData d)).bind fun _ => (o.symbolOf d.decl.id).map Entry.place
  | .exitAssign a => (o.answer (.exitAssign a)).bind fun _ => (o.symbolOf a.id).map Entry.place
  | _ => none

theorem spares_isInit {event : Event} (h : event.isMarking = false) : event.Spares Symbol.isInit where
  counting _ _ := rfl
  adding x _ hinit := by
    cases hx : x.isInit with
    | false => rfl
    | true => rw [hinit hx] at h; cases h
  marking hm := by rw [hm] at h; cases h
  signing _ _ _ := rfl

theorem marks_eq_none {event : Event} (h : event.isMarking = false) : o.marks event = none := by
  cases event with
  | enterParam f d | exitData d | exitAssign a => cases h
  | _ => rfl

/-- Applying a type rule changes no symbol. -/
theorem symbol_apply (s : Pass) (position : Position) (checked : Except TypeError Checked) :
    ∃ s₁, (Pass.apply position checked).run s = .ok (checked.toOption.map Checked.type) s₁ ∧
      s₁.store = s.store := by
  obtain ⟨log, ds, hrun, -⟩ := Pass.apply_run s position checked
  exact ⟨_, hrun, rfl⟩

/-- Marking what a node stands for. -/
theorem Describes.marks_slot (h : o.Describes s) (hv : o.Scoped) {n : NodeId} {entry : Entry}
    (hslot : o.symbolOf n = some entry) (ref : SymbolRef) :
    ((s.store.modifySymbol entry.place fun x => { x with isInit := true }).symbol ref).isInit
      = ((s.store.symbol ref).isInit || decide (entry.place = ref)) := by
  obtain ⟨⟨node, hd⟩, -⟩ := hv.slot hslot
  exact s.store.isInit_markInit (h.lt_count hd) ref

theorem Describes.marks_checkInit (h : o.Describes s) (hv : o.Scoped) {d : DataDef}
    (ht : d.decl.type.type?.isSome) {s' : Pass} (hrun : (Pass.checkInit d).run s = .ok () s')
    (ref : SymbolRef) :
    (s'.store.symbol ref).isInit
      = ((s.store.symbol ref).isInit || decide (o.marks (.exitData d) = some ref)) := by
  -- the run is followed through its early returns, and each of them is a reason for `marks` to be
  -- `none`
  simp only [Pass.checkInit, EStateM.run_bind, typeNamed_run _ ht] at hrun
  by_cases hn : d.decl.type.named = .nothing
  · rw [if_pos hn] at hrun
    cases hrun
    have hquiet : o.marks (.exitData d) = none := by
      cases hvalue : d.init.bind o.typeOf <;> simp [marks, answer, question, hn, hvalue]
    simp [hquiet]
  rw [if_neg hn] at hrun
  cases hi : d.init with
  | none =>
    rw [hi] at hrun
    cases hrun
    simp [marks, answer, question, hi]
  | some init =>
    simp only [hi, EStateM.run_bind, h.typeOf_run] at hrun
    cases hvalue : o.typeOf init with
    | none =>
      rw [hvalue] at hrun
      cases hrun
      simp [marks, answer, question, hi, hvalue]
    | some value =>
      obtain ⟨s₁, happly, hstore⟩ := symbol_apply s d.decl.name.position
        (Rules.assignment d.decl.type.named value)
      have hanswer : o.answer (.exitData d)
          = (Rules.assignment d.decl.type.named value).toOption.map Checked.type := by
        simp [answer, question, hi, hvalue, hn]
      simp only [hvalue, EStateM.run_bind, happly] at hrun
      rw [← hanswer] at hrun
      cases hfits : o.answer (.exitData d) with
      | none =>
        rw [hfits] at hrun
        cases hrun
        simp [marks, hfits, hstore]
      | some type =>
        simp only [hfits, EStateM.run_bind, Pass.symbolOf, EStateM.run_get, EStateM.run_pure, hstore,
          h.slots] at hrun
        cases hslot : o.symbolOf d.decl.id with
        | none =>
          rw [hslot] at hrun
          cases hrun
          simp [marks, hfits, hslot, hstore]
        | some entry =>
          rw [hslot] at hrun
          cases hrun
          simp only [marks, hfits, hslot, Option.bind_some, Option.map_some, Option.some.injEq]
          exact hstore ▸ h.marks_slot hv hslot ref

theorem Describes.marks_checkAssign (h : o.Describes s) (hv : o.Scoped) {a : Assignment}
    {s' : Pass} (hrun : (Pass.checkAssign a).run s = .ok () s') (ref : SymbolRef) :
    (s'.store.symbol ref).isInit
      = ((s.store.symbol ref).isInit || decide (o.marks (.exitAssign a) = some ref)) := by
  simp only [Pass.checkAssign, EStateM.run_bind, h.symbolOf_run] at hrun
  cases hslot : o.symbolOf a.id with
  | none =>
    rw [hslot] at hrun
    cases hrun
    simp [marks, answer, question, hslot]
  | some entry =>
    simp only [hslot, Option.map_some, EStateM.run_bind, h.typeOf_run] at hrun
    cases hvalue : o.typeOf a.value with
    | none =>
      rw [hvalue] at hrun
      cases hrun
      simp [marks, answer, question, hslot, hvalue]
    | some value =>
      -- the type of the target is that of its definition, as the outline has it
      obtain ⟨⟨node, hd⟩, -⟩ := hv.slot hslot
      obtain ⟨s₁, happly, hstore⟩ := symbol_apply s a.target.position
        (Rules.assignment entry.definition.type value)
      have hanswer : o.answer (.exitAssign a)
          = (Rules.assignment entry.definition.type value).toOption.map Checked.type := by
        simp [answer, question, hslot, hvalue]
      simp only [hvalue, EStateM.run_bind, EStateM.run_get, (h.symbol hd).2, happly] at hrun
      rw [← hanswer] at hrun
      cases hfits : o.answer (.exitAssign a) with
      | none =>
        rw [hfits] at hrun
        cases hrun
        simp [marks, hfits, hstore]
      | some type =>
        rw [hfits] at hrun
        cases hrun
        simp only [marks, hfits, hslot, Option.bind_some, Option.map_some, Option.some.injEq]
        exact hstore ▸ h.marks_slot hv hslot ref

/-- A declaration marks its symbol if the symbol comes marked, and nothing else. -/
theorem isInit_declare (decl : Decl) (symbol : Symbol) (s : Pass) (ref : SymbolRef) :
    ((Pass.after ((Pass.declare decl symbol).run s)).store.symbol ref).isInit
      = ((s.store.symbol ref).isInit
        || (symbol.isInit && decide (s.store.symbols.size = ref))) := by
  have hrest : Pass.Takes (Pass.Same Symbol.isInit) _ :=
    Pass.same_announce decl symbol s.store.symbols.size
  rw [Pass.declare_eq]
  refine (hrest.same (s.storing (s.store.addSymbol symbol)) ref).trans ?_
  exact s.store.isInit_addSymbol symbol ref

/-- A parameter comes marked, whether its name is free or not. -/
theorem Describes.marks_declareParam (h : o.Describes s) {d : Decl} (ht : d.type.type?.isSome)
    {r : Option SymbolRef} {s' : Pass} (hrun : (Pass.declareParam d).run s = .ok r s')
    (ref : SymbolRef) :
    (s'.store.symbol ref).isInit
      = ((s.store.symbol ref).isInit || decide (o.declared.length = ref)) := by
  simp only [Pass.declareParam, EStateM.run_bind, typeNamed_run _ ht, EStateM.run_get] at hrun
  cases hh : s.header with
  | none =>
    rw [hh] at hrun
    cases hrun
  | some header =>
    simp only [hh, EStateM.run_bind, EStateM.run_modify] at hrun
    have hinit := isInit_declare d (.ofParam d d.type.named)
      { s with header := some { header with params := header.params ++ [d.type.named] } } ref
    rw [hrun] at hinit
    simpa [Pass.after, Symbol.ofParam, h.count] using hinit

/-- **An event marks what `marks` says**, and the marks that were there stay. -/
theorem Describes.marks_step (h : o.Describes s) (hv : o.Scoped) {event : Event}
    (hp : o.Permits event) {s' : Pass} (hrun : (Pass.visit event).run s = .ok () s')
    (ref : SymbolRef) :
    (s'.store.symbol ref).isInit
      = ((s.store.symbol ref).isInit || decide (o.marks event = some ref)) := by
  cases hm : event.isMarking with
  | false =>
    have hsame := (Pass.same_visit (spares_isInit hm)).same s ref
    rw [hrun] at hsame
    simpa [marks_eq_none hm, Pass.after] using hsame
  | true =>
    cases event with
    | exitData d => exact h.marks_checkInit hv hp.1 hrun ref
    | exitAssign a => exact h.marks_checkAssign hv hrun ref
    | enterParam f d =>
      simp only [Pass.visit, EStateM.run_bind] at hrun
      cases hparam : (Pass.declareParam d).run s with
      | error e t =>
        rw [hparam] at hrun
        cases hrun
      | ok r t =>
        rw [hparam] at hrun
        cases hrun
        simpa [marks] using h.marks_declareParam hp.1.2.2.2 hparam ref
    | _ => cases hm

/-- **A symbol is marked in the end if it was marked before or some event marked it.** -/
theorem Describes.marks_run (h : o.Describes s) (hv : o.Valid) {events : List Event}
    (ho : o.Orderly events) (hl : events.findSome? (Event.untyped? o.literals) = none) {s' : Pass}
    (hrun : (forM events Pass.visit : PassM PUnit).run s = .ok ⟨⟩ s') (ref : SymbolRef) :
    (s'.store.symbol ref).isInit = true ↔ (s.store.symbol ref).isInit = true ∨
      ∃ before event rest, events = before ++ event :: rest ∧
        (o.run before).marks event = some ref := by
  -- on the events, with the state in front of them
  induction events generalizing o s with
  | nil =>
    cases hrun
    simp
  | cons event rest ih =>
    rw [List.findSome?_cons] at hl
    cases hu : event.untyped? o.literals with
    | some token =>
      rw [hu] at hl
      cases hl
    | none =>
      rw [hu] at hl
      obtain ⟨s₁, hvisit, h₁, -⟩ := h.visit_run hv ho.1 hu
      rw [List.forM_cons, EStateM.run_bind, hvisit] at hrun
      rw [ih h₁ (hv.step ho.1) ho.2 (by simpa using hl) hrun, h.marks_step hv.names ho.1 hvisit ref,
        Bool.or_eq_true, decide_eq_true_eq, or_assoc]
      refine or_congr_right ⟨?_, ?_⟩
      · intro hmark
        rcases hmark with hmark | ⟨before, later, rest, rfl, hmark⟩
        · exact ⟨[], event, rest, rfl, hmark⟩
        · exact ⟨event :: before, later, rest, rfl, hmark⟩
      · intro hmark
        obtain ⟨before, later, rest', hsplit, hmark⟩ := hmark
        cases before with
        | nil =>
          cases hsplit
          exact .inl hmark
        | cons first before =>
          cases hsplit
          exact .inr ⟨before, later, rest', rfl, hmark⟩

/-! ## Data is not signed -/

/-- No data has a signature. -/
def Unsigned (o : Outline) (s : Pass) : Prop :=
  ∀ {place : SymbolRef} {node : NodeId} {decl : Decl},
    o.declared[place]? = some (node, .data decl) → (s.store.symbol place).signature = none

theorem spares_signature {event : Event} (h : event.isSigning = false) :
    event.Spares Symbol.signature where
  counting _ _ := rfl
  adding _ hunsigned _ := hunsigned
  marking _ _ := rfl
  signing hs := by rw [hs] at h; cases h

theorem Unsigned.step (hu : o.Unsigned s) (h : o.Describes s) (hv : o.Valid) {event : Event}
    (hp : o.Permits event) {s' : Pass} (hrun : (Pass.visit event).run s = .ok () s') :
    (o.step event).Unsigned s' := by
  intro place node decl hd
  cases hs : event.isSigning with
  | false =>
    have hsame := (Pass.same_visit (spares_signature hs)).same s place
    rw [hrun] at hsame
    refine hsame.trans ?_
    cases hold : o.declared[place]? with
    | none =>
      -- The symbol is new, and its place was empty.
      have hsize : s.store.symbols.size ≤ place := h.count ▸ List.getElem?_eq_none_iff.mp hold
      rw [s.store.symbol_of_size_le hsize]
      rfl
    | some x =>
      cases (getElem?_declared_run [event] hold).symm.trans hd
      exact hu hold
  | true =>
    cases event with
    | exitParams f =>
      obtain ⟨t, ht, -, -, hdata⟩ := h.finishSignature_run hv hp.1 hp.2.1 hp.2.2
      cases ht.symm.trans hrun
      rw [hdata hd]
      exact hu hd
    | _ => cases hs

theorem Unsigned.run (hu : o.Unsigned s) (h : o.Describes s) (hv : o.Valid) {events : List Event}
    (ho : o.Orderly events) (hl : events.findSome? (Event.untyped? o.literals) = none) {s' : Pass}
    (hrun : (forM events Pass.visit : PassM PUnit).run s = .ok ⟨⟩ s') :
    (o.run events).Unsigned s' := by
  induction events generalizing o s with
  | nil =>
    cases hrun
    exact hu
  | cons event rest ih =>
    rw [List.findSome?_cons] at hl
    cases hlit : event.untyped? o.literals with
    | some token =>
      rw [hlit] at hl
      cases hl
    | none =>
      rw [hlit] at hl
      obtain ⟨s₁, hvisit, h₁, -⟩ := h.visit_run hv ho.1 hlit
      rw [List.forM_cons, EStateM.run_bind, hvisit] at hrun
      exact ih (hu.step h hv ho.1 hvisit) h₁ (hv.step ho.1) ho.2 (by simpa using hl) hrun

end Outline

/-- After a check from nothing no data has a signature. -/
theorem Pass.unsigned_check {p : Program} {literals : Cells Ty}
    (ho : (Outline.start literals).Orderly p.events) (hl : p.untyped? literals = none) {s : Pass}
    (h : (Pass.check p).run (Pass.start literals) = .ok () s) :
    ((Outline.start literals).run p.events).Unsigned s := by
  obtain ⟨log, hrun⟩ := Pass.run_of_check h
  have hstart := (Outline.Describes.start literals).logged log
  have hnone : (Outline.start literals).Unsigned ((Pass.start literals).logged log) := by
    intro place node decl hd
    simp [Outline.start] at hd
  intro place node decl hd
  exact hnone.run hstart (Outline.Valid.start literals) ho hl hrun hd

/-- The marks after a check from nothing. -/
theorem Pass.marks_check {p : Program} {literals : Cells Ty}
    (ho : (Outline.start literals).Orderly p.events) (hl : p.untyped? literals = none) {s : Pass}
    (h : (Pass.check p).run (Pass.start literals) = .ok () s) (ref : SymbolRef) :
    (s.store.symbol ref).isInit = true ↔ ∃ before event rest, p.events = before ++ event :: rest ∧
      ((Outline.start literals).run before).marks event = some ref := by
  obtain ⟨log, hrun⟩ := Pass.run_of_check h
  have hstart := (Outline.Describes.start literals).logged log
  have hmarks := hstart.marks_run (Outline.Valid.start literals) ho hl hrun ref
  -- Nothing is marked before anything is there.
  have hnone : ((Pass.start literals).store.symbol ref).isInit ≠ true := by
    rw [Store.symbol_of_size_le _ (Nat.zero_le ref)]
    exact Bool.false_ne_true
  exact hmarks.trans (or_iff_right hnone)

end Semant
