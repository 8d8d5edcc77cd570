import Mathlib.Logic.Relation
import Semant.Proofs.Lockstep

/-!
# The changes that steps are made of

Whatever a step of a pass does, by itself or as part of a check, it does by a few small changes, one
after the other: a symbol is added, a name that was free is bound, an empty cell is filled, and so on.
`Change` lists those that leave the scopes where they are, and `Move` those that open, enter or leave
one. Each comes with what is known at the moment it is made. That is what tells them from the list in
`Stable`, which asks an invariant to bear any binding at all, also one that no step would make.

A step that stops with an error has made some changes before it stopped, so `Takes` speaks of the state
that a step ends in, however it ends.
-/

set_option autoImplicit false

namespace Semant

/-- Cells that hold a symbol or a signature hold the same later on. -/
structure Annotations.Retains (notes later : Annotations) : Prop where
  symbols : ∀ node ref, notes.symbols.get node = some ref → later.symbols.get node = some ref
  signatures : ∀ node signature, notes.signatures.get node = some signature →
    later.signatures.get node = some signature

theorem Annotations.Retains.refl (notes : Annotations) : notes.Retains notes :=
  ⟨fun _ _ => id, fun _ _ => id⟩

theorem Annotations.Retains.trans {a b c : Annotations} (h : a.Retains b) (h' : b.Retains c) :
    a.Retains c where
  symbols node ref hr := h'.symbols node ref (h.symbols node ref hr)
  signatures node signature hs := h'.signatures node signature (h.signatures node signature hs)

/-- Only an empty cell is filled. -/
theorem Cells.get_of_fill {α : Type} {cells later : Cells α} {node n : NodeId} {value old : α}
    (hfill : cells.fill node value = .ok later) (hold : cells.get n = some old) :
    later.get n = some old := by
  unfold Cells.fill at hfill
  split at hfill
  · cases hfill
  · rename_i hempty
    cases hfill
    have hne : node ≠ n := by
      rintro rfl
      rw [hempty] at hold
      cases hold
    rw [Cells.get_put, if_neg hne, hold]

/-- Whoever counts references by hand looks whether there is room for one more. -/
def Symbol.HasRoom (x : Symbol) : Prop := ¬ x.isFull

/-- A check does not look. -/
def Symbol.Any (_ : Symbol) : Prop := True

namespace Pass

/-- One change of a pass that opens, enters and leaves no scope. What has to hold of a symbol for a
reference to be counted is left open: it differs between counting by hand and checking. -/
inductive Change (room : Symbol → Prop) : Pass → Pass → Prop
  | logging (s : Pass) (log : Array LogEntry) : Change room s (s.logged log)
  | reporting (s : Pass) (ds : Diagnostics) : Change room s (s.reporting ds)
  | heading (s : Pass) (header : Option Signature) : Change room s (s.heading header)
  | inside (s : Pass) (function : Option Function) : Change room s (s.inside function)
  | adding (s : Pass) (symbol : Symbol) : Change room s (s.storing (s.store.addSymbol symbol))
  /-- Only a symbol that is there is bound, and only under a name that is free. -/
  | binding (s : Pass) (scope : ScopeRef) (ref : SymbolRef) (there : ref < s.store.symbols.size)
      (free : s.store.find? scope (s.store.symbol ref).name = none) :
      Change room s (s.storing (s.store.bindIn scope ref))
  | signing (s : Pass) (ref : SymbolRef) (signature : Signature)
      (unsigned : (s.store.symbol ref).signature = none) :
      Change room s (s.changing ref fun x => { x with signature := some signature })
  | initing (s : Pass) (ref : SymbolRef) :
      Change room s (s.changing ref fun x => { x with isInit := true })
  | counting (s : Pass) (ref : SymbolRef) (fits : room (s.store.symbol ref)) :
      Change room s (s.changing ref fun x => { x with refs := x.refs + 1 })
  | noting (s : Pass) (notes : Annotations) (scopes : notes.scopes = s.store.notes.scopes)
      (retained : s.store.notes.Retains notes) : Change room s (s.annotating notes)

/-- One change of a pass that concerns which scopes there are and where it stands among them. -/
inductive Move : Pass → Pass → Prop
  | opening (s : Pass) : Move s s.entering
  | leaving (s : Pass) (scope : ScopeRef) (active : s.stack.active = some scope) :
      Move s (s.leaving scope)
  /-- A scope is entered again, from the one around it. -/
  | entering (s : Pass) (scope : ScopeRef) (active : s.stack.active.isSome)
      (parent : (s.store.scope scope).parent = s.stack.active) :
      Move s { s with stack := { s.stack with active := some scope } }
  | resetting (s : Pass) (root : ScopeRef) (known : s.stack.root = some root) :
      Move s { s with stack := { s.stack with active := some root } }
  | recording (s : Pass) (node : NodeId) (scope : ScopeRef)
      (empty : s.store.notes.scopes.get node = none) :
      Move s (s.annotating (s.store.notes.withScope node scope))

/-- Any of the changes. -/
def Alters (room : Symbol → Prop) (s t : Pass) : Prop := Change room s t ∨ Move s t

/-! ## Steps -/

section Takes

variable {α β : Type} {R : Pass → Pass → Prop}

/-- However the step ends, the state it ends in was reached by changes of this kind. -/
def Takes (R : Pass → Pass → Prop) (x : PassM α) : Prop :=
  ∀ s, Relation.ReflTransGen R s (after (x.run s))

namespace Takes

theorem value (a : α) : Takes R (pure a : PassM α) := fun _ => .refl

theorem fail (e : InternalError) : Takes R (throw e : PassM α) := fun _ => .refl

theorem lift (x : Except InternalError α) : Takes R (ofExcept x : PassM α) := by
  cases x with
  | error e => exact fail e
  | ok a => exact value a

theorem change {f : Pass → Pass} (h : ∀ s, R s (f s)) : Takes R (modify f : PassM Unit) :=
  fun s => .single (h s)

/-- A step that looks at the state first is settled for the state that is there. -/
theorem look {f : Pass → PassM α} (h : ∀ s, Relation.ReflTransGen R s (after ((f s).run s))) :
    Takes R (get >>= f) := h

theorem follow {x : PassM α} {f : α → PassM β} {s : Pass}
    (hx : Relation.ReflTransGen R s (after (x.run s)))
    (hf : ∀ a s', x.run s = .ok a s' → Relation.ReflTransGen R s' (after ((f a).run s'))) :
    Relation.ReflTransGen R s (after ((x >>= f).run s)) := by
  rw [EStateM.run_bind]
  cases hr : x.run s with
  | error e s' =>
    rw [hr] at hx
    exact hx
  | ok a s' =>
    rw [hr] at hx
    exact hx.trans (hf a s' hr)

theorem bind {x : PassM α} {f : α → PassM β} (hx : Takes R x) (hf : ∀ a, Takes R (f a)) :
    Takes R (x >>= f) :=
  fun s => follow (hx s) fun a s' _ => hf a s'

/-- A report counts, writes to the log and adds a diagnostic. -/
theorem report (h : ∀ s ds log, Relation.ReflTransGen R s ((s.reporting ds).logged log))
    (severity : Severity) (position : Position) (finding : Finding) :
    Takes R (report severity position finding) := by
  intro s
  obtain ⟨log, hrun⟩ := report_run s severity position finding
  rw [hrun]
  exact h s _ log

theorem mono {R' : Pass → Pass → Prop} {x : PassM α} (h : Takes R x)
    (himp : ∀ s t, R s t → R' s t) : Takes R' x :=
  fun s => (h s).lift id himp

theorem forM {γ : Type} {f : γ → PassM Unit} (h : ∀ c, Takes R (f c)) :
    ∀ cs : List γ, Takes R (forM cs f : PassM PUnit)
  | [] => value _
  | c :: rest => by
    rw [List.forM_cons]
    exact (h c).bind fun _ => Takes.forM h rest

end Takes

end Takes

variable {room : Symbol → Prop}

/-! ## Findings about nodes -/

theorem takes_note (entry : LogEntry) : Takes (Change room) (note entry) :=
  .change fun s => .logging s _

theorem takes_report (severity : Severity) (position : Position) (finding : Finding) :
    Takes (Change room) (report severity position finding) :=
  .report (fun s ds log => .tail (.single (.reporting s ds)) (.logging _ log)) _ _ _

theorem takes_record {ε : Type} (subject : Subject) {fill : Annotations → Except ε Annotations}
    (h : ∀ notes notes', fill notes = .ok notes' →
      notes'.scopes = notes.scopes ∧ notes.Retains notes') :
    Takes (Change room) (record subject fill) := by
  unfold record
  apply Takes.look
  intro s
  cases hf : fill s.store.notes with
  | error e => exact .refl
  | ok notes =>
    obtain ⟨hscopes, hretained⟩ := h _ _ hf
    exact .single (.noting s notes hscopes hretained)

theorem takes_recordSymbol (node : NodeId) (symbol : SymbolRef) (subject : Subject) :
    Takes (Change room) (recordSymbol node symbol subject) := by
  apply takes_record
  intro notes notes' hf
  unfold Annotations.fillSymbol at hf
  cases hc : notes.symbols.fill node symbol with
  | error old => rw [hc] at hf; cases hf
  | ok cells =>
    rw [hc] at hf
    cases hf
    exact ⟨rfl, fun _ _ => Cells.get_of_fill hc, fun _ _ => id⟩

theorem takes_recordSignature (node : NodeId) (signature : Signature) (subject : Subject) :
    Takes (Change room) (recordSignature node signature subject) := by
  apply takes_record
  intro notes notes' hf
  unfold Annotations.fillSignature at hf
  cases hc : notes.signatures.fill node signature with
  | error old => rw [hc] at hf; cases hf
  | ok cells =>
    rw [hc] at hf
    cases hf
    exact ⟨rfl, fun _ _ => id, fun _ _ => Cells.get_of_fill hc⟩

theorem takes_recordType (e : Expr) (type : Ty) : Takes (Change room) (recordType e type) := by
  unfold recordType
  refine (takes_note _).bind fun _ => takes_record _ ?_
  intro notes notes' hf
  unfold Annotations.fillType at hf
  split at hf
  · cases hf
  · cases e <;> cases hf <;> exact ⟨rfl, fun _ _ => id, fun _ _ => id⟩

theorem takes_typeOf (e : Expr) : Takes (Change room) (typeOf e) :=
  .look fun _ => .refl

theorem takes_symbolOf (node : NodeId) : Takes (Change room) (symbolOf node) :=
  .look fun _ => .refl

/-! ## Names -/

theorem takes_activeScope : Takes (Change room) activeScope := by
  unfold activeScope
  apply Takes.look
  intro s
  cases s.stack.active with
  | none => exact .refl
  | some ref => exact .refl

theorem takes_makeSymbol (symbol : Symbol) : Takes (Change room) (makeSymbol symbol) := by
  unfold makeSymbol
  apply Takes.look
  intro s
  exact .single (.adding s symbol)

/-- A symbol has to be there for its name to be bound. -/
theorem takes_bind (scope : ScopeRef) {ref : SymbolRef} {s : Pass}
    (h : ref < s.store.symbols.size) :
    Relation.ReflTransGen (Change room) s (after ((Pass.bind scope ref).run s)) := by
  unfold Pass.bind
  rw [EStateM.run_bind, EStateM.run_get]
  dsimp only
  cases hf : s.store.find? scope (s.store.symbol ref).name with
  | some old => exact (((takes_report _ _ _).bind fun _ => Takes.value _) s)
  | none =>
    refine Takes.follow (takes_note _ s) ?_
    rintro _ _ ⟨⟩
    exact .single (.binding _ scope ref h hf)

theorem takes_bindAt (node : NodeId) {ref : SymbolRef} (subject : Subject) {s : Pass}
    (h : ref < s.store.symbols.size) :
    Relation.ReflTransGen (Change room) s (after ((bindAt node ref subject).run s)) := by
  unfold bindAt
  refine Takes.follow (takes_activeScope s) ?_
  intro scope s' hactive
  have hsame : s' = s := by
    unfold activeScope at hactive
    rw [EStateM.run_bind, EStateM.run_get] at hactive
    dsimp only at hactive
    cases hs : s.stack.active with
    | none => rw [hs] at hactive; cases hactive
    | some active => rw [hs] at hactive; cases hactive; rfl
  subst hsame
  refine Takes.follow (takes_bind scope h) ?_
  intro bound s'' _
  cases bound with
  | none => exact .refl
  | some bound => exact ((takes_recordSymbol _ _ _).bind fun _ => Takes.value _) s''

/-- The symbol that was just made is there. -/
theorem takes_makeSymbol_then {α : Type} (symbol : Symbol) {f : SymbolRef → PassM α}
    (h : ∀ ref s, ref < s.store.symbols.size →
      Relation.ReflTransGen (Change room) s (after ((f ref).run s))) :
    Takes (Change room) (makeSymbol symbol >>= f) := by
  intro s
  refine Takes.follow (takes_makeSymbol symbol s) ?_
  rintro _ _ ⟨⟩
  apply h
  show s.store.symbols.size < (s.store.addSymbol symbol).symbols.size
  rw [Store.size_addSymbol]
  exact Nat.lt_succ_self _

theorem takes_declare (decl : Decl) (symbol : Symbol) : Takes (Change room) (declare decl symbol) := by
  rw [declare_eq]
  apply takes_makeSymbol_then
  intro ref s href
  by_cases hnothing : symbol.type = .nothing
  · simp only [if_pos hnothing]
    refine Takes.follow (takes_report _ _ _ s) ?_
    rintro _ _ ⟨⟩
    exact takes_bindAt _ _ href
  · simp only [if_neg hnothing]
    exact takes_bindAt _ _ href

theorem takes_declareData (decl : Decl) : Takes (Change room) (declareData decl) :=
  (Takes.lift _).bind fun _ => takes_declare _ _

theorem takes_declareParam (decl : Decl) : Takes (Change room) (declareParam decl) := by
  unfold declareParam
  refine (Takes.lift _).bind fun type => Takes.look ?_
  intro s
  cases s.header with
  | none => exact .refl
  | some header => exact ((Takes.change fun s => .heading s _).bind fun _ => takes_declare _ _) s

theorem takes_declareFunction (f : Function) : Takes (Change room) (declareFunction f) := by
  intro s
  cases hs : s.header with
  | some unfinished =>
    unfold declareFunction
    rw [EStateM.run_bind, EStateM.run_get]
    dsimp only
    rw [hs]
    exact .refl
  | none =>
    rw [declareFunction_eq f hs]
    refine ((Takes.lift _).bind fun returns => takes_makeSymbol_then _ ?_) s
    intro ref s' href
    refine Takes.follow (takes_bindAt _ _ href) ?_
    intro bound s'' _
    exact ((Takes.change fun s => .heading s _).bind fun _ => Takes.value _) s''

theorem takes_signSymbol (ref : SymbolRef) (signature : Signature) (subject : Subject) :
    Takes (Change room) (signSymbol ref signature subject) := by
  unfold signSymbol
  apply Takes.look
  intro s
  cases hs : (s.store.symbol ref).signature with
  | some old => exact .refl
  | none => exact .single (.signing s ref signature hs)

theorem takes_finishSignature (f : Function) : Takes (Change room) (finishSignature f) := by
  unfold finishSignature
  apply Takes.look
  intro s
  cases s.header with
  | none => exact .refl
  | some signature =>
    refine ((Takes.change fun s => .heading s none).bind fun _ => ?_) s
    refine (takes_note _).bind fun _ => (takes_recordSignature _ _ _).bind fun _ => ?_
    refine (takes_symbolOf _).bind fun slot => ?_
    cases slot with
    | none => exact .value _
    | some ref => exact takes_signSymbol _ _ _

theorem takes_markInit (ref : SymbolRef) : Takes (Change room) (markInit ref) :=
  .change fun s => .initing s ref

theorem takes_resolve (scope : ScopeRef) (name : Identifier) (use : Use) {s : Pass}
    (h : ∀ ref, s.store.find? scope name.name = some ref →
      (s.store.symbol ref).cls = use.expects → room (s.store.symbol ref)) :
    Relation.ReflTransGen (Change room) s (after ((resolve scope name use).run s)) := by
  unfold resolve
  rw [EStateM.run_bind, EStateM.run_get]
  dsimp only
  cases hfind : s.store.find? scope name.name with
  | none => exact .refl
  | some ref =>
    by_cases hfits : (s.store.symbol ref).cls = use.expects
    · simp only [if_pos hfits]
      refine Takes.follow (.single (.counting s ref (h ref hfind hfits))) ?_
      intro _ s' _
      exact ((takes_note _).bind fun _ => Takes.value _) s'
    · simp only [if_neg hfits]
      exact .refl

theorem takes_reference (ref : SymbolRef) : Takes (Change Symbol.HasRoom) (reference ref) := by
  unfold reference
  apply Takes.look
  intro s
  by_cases hfull : (s.store.symbol ref).isFull
  · simp only [if_pos hfull]
    exact .refl
  · simp only [if_neg hfull]
    exact .single (.counting s ref hfull)

theorem takes_lookup (scope : ScopeRef) (name : Identifier) (use : Use) :
    Takes (Change Symbol.HasRoom) (lookup scope name use) := by
  unfold lookup
  apply Takes.look
  intro s
  dsimp only
  by_cases hfull : ((s.store.find? scope name.name).any fun ref =>
      (s.store.symbol ref).cls = use.expects && (s.store.symbol ref).isFull) = true
  · simp only [if_pos hfull]
    exact .refl
  · simp only [if_neg hfull]
    -- What fits and is found is not full, or nothing would have been looked up.
    have hroom : ∀ ref, s.store.find? scope name.name = some ref →
        (s.store.symbol ref).cls = use.expects → (s.store.symbol ref).HasRoom := by
      intro ref hfind hfits hend
      exact hfull (by simp [hfind, hfits, hend])
    refine Takes.follow (takes_resolve scope name use hroom) ?_
    intro found s' _
    cases found with
    | ok ref => exact .refl
    | error e => exact .refl

theorem takes_resolveAt (node : NodeId) (name : Identifier) (use : Use) (subject : Subject) :
    Takes (Change Symbol.Any) (resolveAt node name use subject) := by
  unfold resolveAt
  refine takes_activeScope.bind fun scope => Takes.bind (fun s => ?_) fun found => ?_
  · exact takes_resolve scope name use fun _ _ _ => trivial
  · cases found with
    | ok ref => exact takes_recordSymbol _ _ _
    | error e => exact takes_report _ _ _

/-! ## Types -/

theorem takes_apply (position : Position) (checked : Except TypeError Checked) :
    Takes (Change room) (apply position checked) := by
  unfold apply
  cases checked with
  | error e => exact (takes_report _ _ _).bind fun _ => .value _
  | ok result =>
    obtain ⟨type, warning⟩ := result
    cases warning with
    | none => exact .value _
    | some warning => exact (takes_report _ _ _).bind fun _ => .value _

theorem takes_typeBy (e : Expr) (position : Position) (checked : Except TypeError Checked) :
    Takes (Change room) (typeBy e position checked) := by
  unfold typeBy
  refine (takes_apply position checked).bind fun type => ?_
  cases type with
  | none => exact .value _
  | some type => exact takes_recordType e type

theorem takes_checkReturn (keyword : Token) (value : Option Expr) :
    Takes (Change room) (checkReturn keyword value) := by
  unfold checkReturn
  apply Takes.look
  intro s
  cases s.function with
  | none => exact .refl
  | some f =>
    refine ((Takes.lift _).bind fun returns => ?_) s
    cases value with
    | none =>
      by_cases hnothing : returns = .nothing
      · simp only [ne_eq, hnothing, not_true, if_false]
        exact .value _
      · simp only [ne_eq, hnothing, not_false_eq_true, if_true]
        exact takes_report _ _ _
    | some value =>
      by_cases hnothing : returns = .nothing
      · simp only [if_pos hnothing]
        exact takes_report _ _ _
      · simp only [if_neg hnothing]
        refine (takes_typeOf value).bind fun type => ?_
        cases type with
        | none => exact .value _
        | some type => exact (takes_apply _ _).bind fun _ => .value _

theorem takes_checkInit (d : DataDef) : Takes (Change room) (checkInit d) := by
  unfold checkInit
  refine (Takes.lift _).bind fun target => ?_
  by_cases hnothing : target = .nothing
  · simp only [if_pos hnothing]
    exact .value _
  simp only [if_neg hnothing]
  cases d.init with
  | none => exact .value _
  | some init =>
    refine (takes_typeOf init).bind fun value => ?_
    cases value with
    | none => exact .value _
    | some value =>
      refine (takes_apply _ _).bind fun type => ?_
      cases type with
      | none => exact .value _
      | some type =>
        refine (takes_symbolOf _).bind fun slot => ?_
        cases slot with
        | none => exact .value _
        | some ref => exact takes_markInit ref

theorem takes_checkAssign (a : Assignment) : Takes (Change room) (checkAssign a) := by
  unfold checkAssign
  refine (takes_symbolOf _).bind fun slot => ?_
  cases slot with
  | none => exact .value _
  | some ref =>
    refine (takes_typeOf _).bind fun value => ?_
    cases value with
    | none => exact .value _
    | some value =>
      apply Takes.look
      intro s
      refine ((takes_apply _ _).bind fun type => ?_) s
      cases type with
      | none => exact .value _
      | some type => exact takes_markInit ref

theorem takes_checkCall (e : Expr) (callee : Identifier) (args : List Expr) :
    Takes (Change room) (checkCall e callee args) := by
  unfold checkCall
  refine (takes_symbolOf _).bind fun slot => ?_
  cases slot with
  | none => exact .value _
  | some ref =>
    apply Takes.look
    intro s
    dsimp only
    cases (s.store.symbol ref).signature with
    | none => exact .refl
    | some signature =>
      dsimp only
      cases signature.validate (args.map s.store.notes.typeOf) with
      | ok u => exact takes_recordType e _ s
      | error fault => exact ((takes_report _ _ _).bind fun _ => takes_recordType e _) s

/-! ## Scopes -/

theorem takes_createScope : Takes (Alters room) createScope := by
  intro s
  exact .tail (.single (.inr (.opening s))) (.inl (.logging _ _))

theorem takes_openScope (node : String) : Takes (Alters room) (openScope node) := by
  unfold openScope
  refine takes_createScope.bind fun ref => Takes.look ?_
  intro s
  exact .single (.inl (.logging s _))

theorem takes_recordScope (node : NodeId) (scope : ScopeRef) (subject : Subject) :
    Takes (Alters room) (recordScope node scope subject) := by
  unfold recordScope record
  apply Takes.look
  intro s
  dsimp only
  -- A full cell is an error, and nothing has changed then.
  cases hs : s.store.notes.scopes.get node with
  | some old =>
    rw [Annotations.fillScope_taken scope hs]
    exact .refl
  | none =>
    rw [Annotations.fillScope_eq scope hs]
    exact .single (.inr (.recording s node scope hs))

theorem takes_leaveScope : Takes (Alters room) leaveScope := by
  unfold leaveScope
  apply Takes.look
  intro s
  cases hs : s.stack.active with
  | none => exact .refl
  | some ref => exact .tail (.single (.inr (.leaving s ref hs))) (.inl (.logging _ _))

theorem takes_enterScope (ref : ScopeRef) : Takes (Alters room) (enterScope ref) := by
  unfold enterScope
  apply Takes.look
  intro s
  by_cases h : (s.stack.active.isSome && (s.store.scope ref).parent = s.stack.active) = true
  · simp only [if_pos h]
    rw [Bool.and_eq_true, decide_eq_true_eq] at h
    exact .tail (.single (.inr (.entering s ref h.1 h.2))) (.inl (.logging _ _))
  · simp only [if_neg h]
    exact .refl

theorem takes_resetScope : Takes (Alters room) resetScope := by
  unfold resetScope
  apply Takes.look
  intro s
  cases hs : s.stack.root with
  | none => exact .refl
  | some ref => exact .tail (.single (.inr (.resetting s ref hs))) (.inl (.logging _ _))

end Pass

/-! ## Checks -/

/-- Whether a walk leaves a node that has a scope. -/
def Event.closes : Event → Bool
  | .exitProgram _ | .exitFunction _ | .exitBlock _ => true
  | _ => false

namespace Pass

theorem takes_visit_still {event : Event} (ho : event.opens? = none)
    (hc : event.closes = false) : Takes (Change Symbol.Any) (visit event) := by
  unfold visit
  cases event with
  -- scopes are opened and left by six events, and the hypotheses exclude all of them
  | enterProgram p | enterFunction f | enterBlock b => cases ho
  | exitProgram p | exitFunction f | exitBlock b => cases hc
  | enterStart start => exact .change fun s => .inside s none
  | enterDecl d => exact (takes_declareData d).bind fun _ => .value _
  | enterParam f d => exact (takes_declareParam d).bind fun _ => .value _
  | exitParams f => exact takes_finishSignature f
  | exitData d => exact takes_checkInit d
  | enterAssign a => exact takes_resolveAt _ _ _ _
  | exitAssign a => exact takes_checkAssign a
  | exitReturn keyword value => exact takes_checkReturn keyword value
  | exitLiteral e token =>
    refine (takes_typeOf e).bind fun type => ?_
    cases type with
    | none => exact .fail _
    | some type => exact .value _
  | enterVariable e name => exact takes_resolveAt _ _ _ _
  | exitVariable e name =>
    refine (takes_symbolOf _).bind fun slot => ?_
    cases slot with
    | none => exact .value _
    | some ref => exact .look fun s => takes_recordType e _ s
  | enterCall e callee args => exact takes_resolveAt _ _ _ _
  | exitCall e callee args => exact takes_checkCall e callee args
  | exitBinary e op token lhs rhs =>
    refine (takes_typeOf lhs).bind fun left => ?_
    cases left with
    | none => exact .value _
    | some left =>
      refine (takes_typeOf rhs).bind fun right => ?_
      cases right with
      | none => exact .value _
      | some right => exact takes_typeBy _ _ _
  | exitUnary e op token operand =>
    refine (takes_typeOf operand).bind fun type => ?_
    cases type with
    | none => exact .value _
    | some type => exact takes_typeBy _ _ _
  | exitCast e target operand =>
    refine (Takes.lift _).bind fun type => (takes_typeOf operand).bind fun source => ?_
    cases source with
    | none => exact .value _
    | some source => exact takes_typeBy _ _ _
  | exitGrouped e inner =>
    refine (takes_typeOf inner).bind fun type => ?_
    cases type with
    | none => exact .value _
    | some type => exact takes_recordType e type
  | exitFormat e token args => exact takes_recordType e _
  | _ => exact .value _

/-- Whatever happens at an event is made of such changes. -/
theorem takes_visit (event : Event) : Takes (Alters Symbol.Any) (visit event) := by
  -- Only six events open or leave a scope.
  cases ho : event.opens? with
  | none =>
    cases hc : event.closes with
    | false => exact (takes_visit_still ho hc).mono fun _ _ => .inl
    | true =>
      cases event with
      | exitProgram p => exact takes_leaveScope.bind fun _ => .value _
      | exitBlock b => exact takes_leaveScope.bind fun _ => .value _
      | exitFunction f =>
        exact takes_leaveScope.bind fun _ => .change fun s => .inl (.inside s none)
      | _ => cases hc
  | some node =>
    cases event with
    | enterProgram p =>
      exact (takes_openScope _).bind fun scope => takes_recordScope _ scope _
    | enterBlock b =>
      exact (takes_openScope _).bind fun scope => takes_recordScope _ scope _
    | enterFunction f =>
      refine ((takes_declareFunction f).mono fun _ _ => .inl).bind fun _ => ?_
      refine (takes_openScope _).bind fun scope => (takes_recordScope _ scope _).bind fun _ => ?_
      exact .change fun s => .inl (.inside s (some f))
    | _ => cases ho

theorem takes_check (p : Program) : Takes (Alters Symbol.Any) (check p) := by
  unfold check
  rw [Program.walk_eq_forM]
  have hnote : ∀ entry, Takes (Alters Symbol.Any) (note entry) := fun entry =>
    (takes_note entry).mono fun _ _ => .inl
  exact (hnote _).bind fun _ => Takes.forM takes_visit p.events

end Pass

end Semant
