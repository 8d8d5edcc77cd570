import Semant.Proofs.Renaming
import Semant.Proofs.Steps
import Semant.Proofs.Store
import Semant.Proofs.Territory

/-!
# Two checks in step, up to names

A check can be run in many stores, and on programs that differ in nothing but their names. What
surrounds it (scopes and symbols of other programs, cells of other trees, how often a symbol has been
used so far) should make no difference to what it does, and names should be handed through. The
statements that say so all have one shape: run events in one state and the same events, renamed, in
another one; if the states were alike before, they are alike after.

What *alike* means differs from one statement to the next. So this file fixes only what a relation
between states has to offer for a check not to notice the difference. `Concord` lists it: the few
things that a check reads have to agree, and the few changes that it makes have to keep the relation.
From that follows, once and for all, that two checks stay in step (`Concord.visit`, `Concord.run`).

A step may hold on to a symbol while it does other things, and what is known about a place of a store
before there is a symbol is of no use. So the relation has a level, which says how many symbols are known
to be there. Symbols that a step comes across raise the level for the rest of the step.

Nothing is conditional on a check going well. Two checks in step stop at the same event with the same
error, and even then the states they leave are alike.
-/

set_option autoImplicit false

namespace Semant

/-- What the uses of a symbol depend on. Whether it has a value and how often it is used are not
among it. -/
structure Interface where
  cls : SymbolClass
  type : Ty
  position : Position
  signature : Option Signature
  deriving DecidableEq

def Symbol.interface (symbol : Symbol) : Interface :=
  { cls := symbol.cls
    type := symbol.type
    position := symbol.position
    signature := symbol.signature }

def Interface.rename (f : String → String) (i : Interface) : Interface :=
  { i with signature := i.signature.map (Signature.rename f) }

@[simp]
theorem Interface.rename_same (i : Interface) : i.rename sameName = i := by
  simp [Interface.rename]

theorem Symbol.interface_rename (f : String → String) (x : Symbol) :
    (x.rename f).interface = x.interface.rename f := by
  obtain ⟨_ | _⟩ := x <;> rfl

/-- What a `return` depends on of the function around it. -/
def Function.face (g : Function) : String × Token := (g.name.name, g.returns)

namespace Pass

/-! ## Steps that end alike -/

variable {α β γ δ : Type} {f : String → String}

/-- Both steps go through, with values that belong together, or both stop with the same error, up to
names. Either way the states are alike. -/
def Agree (f : String → String) (R : Pass → Pass → Prop) (Q : α → β → Prop) :
    EStateM.Result InternalError Pass α → EStateM.Result InternalError Pass β → Prop
  | .ok a s, .ok b t => Q a b ∧ R s t
  | .error e s, .error e' t => e.Renames f e' ∧ R s t
  | _, _ => False

theorem Agree.mono {R R' : Pass → Pass → Prop} {Q : α → β → Prop}
    {x : EStateM.Result InternalError Pass α} {y : EStateM.Result InternalError Pass β}
    (h : Agree f R Q x y) (hR : ∀ s t, R s t → R' s t) : Agree f R' Q x y := by
  cases x with
  | ok a s =>
    cases y with
    | ok b t => exact ⟨h.1, hR s t h.2⟩
    | error e t => exact h
  | error e s =>
    cases y with
    | ok b t => exact h
    | error e' t => exact ⟨h.1, hR s t h.2⟩

/-- From states that are alike, two steps end alike. -/
def Tandem (f : String → String) (R : Pass → Pass → Prop) (Q : α → β → Prop) (x : PassM α)
    (y : PassM β) : Prop :=
  ∀ s t, R s t → Agree f R Q (x.run s) (y.run t)

namespace Tandem

variable {R : Pass → Pass → Prop} {Q : α → β → Prop} {P : γ → δ → Prop}

theorem value {a : α} {b : β} (h : Q a b) : Tandem f R Q (pure a) (pure b) := by
  intro s t hR
  exact ⟨h, hR⟩

theorem fail {e e' : InternalError} (h : e.Renames f e') :
    Tandem f R Q (throw e : PassM α) (throw e' : PassM β) := by
  intro s t hR
  exact ⟨h, hR⟩

/-- Names of types are the same on both sides. -/
theorem typeNamed (token : Token) :
    Tandem f R Eq (ofExcept (typeNamed token)) (ofExcept (typeNamed token)) := by
  unfold Semant.typeNamed
  cases token.type? with
  | none => exact fail (.notATypeName _ _)
  | some type => exact value rfl

theorem bind {x : PassM α} {y : PassM β} {k : α → PassM γ} {k' : β → PassM δ}
    (hx : Tandem f R Q x y) (hk : ∀ a b, Q a b → Tandem f R P (k a) (k' b)) :
    Tandem f R P (x >>= k) (y >>= k') := by
  intro s t hR
  have hmeet := hx s t hR
  rw [EStateM.run_bind, EStateM.run_bind]
  cases hs : x.run s with
  | ok a s' =>
    cases ht : y.run t with
    | ok b t' =>
      rw [hs, ht] at hmeet
      exact hk a b hmeet.1 s' t' hmeet.2
    | error e t' =>
      rw [hs, ht] at hmeet
      exact hmeet.elim
  | error e s' =>
    cases ht : y.run t with
    | ok b t' =>
      rw [hs, ht] at hmeet
      exact hmeet.elim
    | error e' t' =>
      rw [hs, ht] at hmeet
      exact hmeet

/-- The state is looked at. What comes next is settled for the two states that are there. -/
theorem look {k : Pass → PassM γ} {k' : Pass → PassM δ}
    (h : ∀ s t, R s t → Agree f R P ((k s).run s) ((k' t).run t)) :
    Tandem f R P (get >>= k) (get >>= k') := by
  intro s t hR
  exact h s t hR

theorem change {g g' : Pass → Pass} (h : ∀ s t, R s t → R (g s) (g' t)) :
    Tandem f R (fun _ _ => True) (modify g) (modify g') := by
  intro s t hR
  exact ⟨trivial, h s t hR⟩

theorem forM {events : List Event} {g : Event → PassM Unit}
    (h : ∀ event ∈ events, Tandem f R (fun _ _ => True) (g event) (g (event.rename f))) :
    Tandem f R (fun _ _ => True) (forM events g : PassM PUnit)
      (forM (events.map (Event.rename f)) g : PassM PUnit) := by
  induction events with
  | nil => exact value trivial
  | cons event rest ih =>
    rw [List.map_cons, List.forM_cons, List.forM_cons]
    refine (h event List.mem_cons_self).bind ?_
    intro _ _ _
    exact ih fun other hm => h other (List.mem_cons_of_mem event hm)

/-- A cell is filled in both states or in none of them. -/
theorem record {ε : Type} {subject subject' : Subject} (hs : subject.Renames f subject')
    {fill fill' : Annotations → Except ε Annotations}
    (h : ∀ s t, R s t →
      (∃ notes notes', fill s.store.notes = .ok notes ∧ fill' t.store.notes = .ok notes' ∧
        R (s.storing (s.store.annotate notes)) (t.storing (t.store.annotate notes'))) ∨
      ∃ e e', fill s.store.notes = .error e ∧ fill' t.store.notes = .error e') :
    Tandem f R (fun _ _ => True) (record subject fill) (record subject' fill') := by
  unfold Pass.record
  apply look
  intro s t hR
  rcases h s t hR with ⟨notes, notes', hfill, hfill', hR'⟩ | ⟨e, e', hfill, hfill'⟩
  · rw [hfill, hfill']
    exact ⟨trivial, hR'⟩
  · rw [hfill, hfill']
    exact ⟨.reannotated hs, hR⟩

end Tandem

end Pass

/-! ## What a relation has to offer -/

namespace Pass

/-- The state once a scope was opened inside the active one. -/
def entering (s : Pass) : Pass :=
  { s with
    store := s.store.addScope { id := s.stack.next, parent := s.stack.active }
    stack :=
      { root := s.stack.root.or (some s.store.scopes.size)
        active := some s.store.scopes.size
        next := s.stack.next + 1 } }

/-- The state once a scope was left. -/
def leaving (s : Pass) (scope : ScopeRef) : Pass :=
  { s with stack := { s.stack with active := (s.store.scope scope).parent } }

def heading (s : Pass) (header : Option Signature) : Pass := { s with header }

def inside (s : Pass) (function : Option Function) : Pass := { s with function }

/-- A symbol is changed. -/
def changing (s : Pass) (ref : SymbolRef) (f : Symbol → Symbol) : Pass :=
  s.storing (s.store.modifySymbol ref f)

def annotating (s : Pass) (notes : Annotations) : Pass := s.storing (s.store.annotate notes)

end Pass

/-- States are alike as far as a check inside the territory can tell, once the names of the first are
replaced. Scopes and symbols may be at different places in the two stores; `scope` and `symbol` say which
of them correspond. -/
structure Concord (f : String → String) (T : Territory) (scope : ScopeRef → ScopeRef → Prop)
    (symbol : Nat → SymbolRef → SymbolRef → Prop) (R : Nat → Pass → Pass → Prop) : Prop where
  -- Whoever knows more symbols knows fewer.
  fewer : ∀ {n m}, n ≤ m → ∀ s t, R m s t → R n s t
  header : ∀ {n s t}, R n s t → t.header = s.header.map (Signature.rename f)
  function : ∀ {n s t}, R n s t →
    t.function.map Function.face = s.function.map fun g => (g.rename f).face
  active : ∀ {n s t}, R n s t → Option.Rel scope s.stack.active t.stack.active
  type : ∀ {n s t}, R n s t → ∀ e, T.types e →
    s.store.notes.typeOf e = t.store.notes.typeOf (e.rename f)
  slot : ∀ {n s t}, R n s t → ∀ node, T.symbols node → ∃ m, n ≤ m ∧ R m s t ∧
    Option.Rel (symbol m) (s.store.notes.symbols.get node) (t.store.notes.symbols.get node)
  opened : ∀ {n s t}, R n s t → ∀ node, T.opens node →
    (s.store.notes.scopes.get node).isSome = (t.store.notes.scopes.get node).isSome
  signed : ∀ {n s t}, R n s t → ∀ node, T.signs node →
    (s.store.notes.signatures.get node).isSome = (t.store.notes.signatures.get node).isSome
  name : ∀ {n s t}, R n s t → ∀ a b, symbol n a b → (t.store.symbol b).name = f (s.store.symbol a).name
  interface : ∀ {n s t}, R n s t → ∀ a b, symbol n a b →
    (t.store.symbol b).interface = (s.store.symbol a).interface.rename f
  find : ∀ {n s t}, R n s t → ∀ a b, scope a b → ∀ name, ∃ m, n ≤ m ∧ R m s t ∧
    Option.Rel (symbol m) (s.store.find? a name) (t.store.find? b (f name))
  -- What follows are the changes. The log is not compared.
  logged : ∀ {n s t}, R n s t → ∀ l l', R n (s.logged l) (t.logged l')
  reporting : ∀ {n s t}, R n s t → ∀ ds : Diagnostics,
    R n (s.reporting ds) (t.reporting (ds.map (Diagnostic.rename f)))
  heading : ∀ {n s t}, R n s t → ∀ header : Option Signature,
    R n (s.heading header) (t.heading (header.map (Signature.rename f)))
  inside : ∀ {n s t}, R n s t → ∀ function : Option Function,
    R n (s.inside function) (t.inside (function.map (Function.rename f)))
  entering : ∀ {n s t}, R n s t →
    scope s.store.scopes.size t.store.scopes.size ∧ R n s.entering t.entering
  leaving : ∀ {n s t}, R n s t → ∀ a b, s.stack.active = some a → t.stack.active = some b →
    scope a b → R n (s.leaving a) (t.leaving b)
  adding : ∀ {n s t}, R n s t → ∀ added : Symbol, added.refs = 0 → ∃ m, n ≤ m ∧
    symbol m s.store.symbols.size t.store.symbols.size ∧
      R m (s.storing (s.store.addSymbol added)) (t.storing (t.store.addSymbol (added.rename f)))
  binding : ∀ {n s t}, R n s t → ∀ a b, scope a b → ∀ c d, symbol n c d →
    R n (s.storing (s.store.bindIn a c)) (t.storing (t.store.bindIn b d))
  signing : ∀ {n s t}, R n s t → ∀ c d, symbol n c d → ∀ signature : Signature,
    R n (s.changing c fun x => { x with signature := some signature })
      (t.changing d fun x => { x with signature := some (signature.rename f) })
  initing : ∀ {n s t}, R n s t → ∀ c d, symbol n c d →
    R n (s.changing c fun x => { x with isInit := true })
      (t.changing d fun x => { x with isInit := true })
  counting : T.counts → ∀ {n s t}, R n s t → ∀ c d, symbol n c d →
    R n (s.changing c fun x => { x with refs := x.refs + 1 })
      (t.changing d fun x => { x with refs := x.refs + 1 })
  withScope : ∀ {n s t}, R n s t → ∀ node, T.opens node → ∀ a b, scope a b →
    R n (s.annotating (s.store.notes.withScope node a)) (t.annotating (t.store.notes.withScope node b))
  withSymbol : ∀ {n s t}, R n s t → ∀ node, T.symbols node → ∀ c d, symbol n c d →
    R n (s.annotating (s.store.notes.withSymbol node c))
      (t.annotating (t.store.notes.withSymbol node d))
  withSignature : ∀ {n s t}, R n s t → ∀ node, T.signs node → ∀ signature : Signature,
    R n (s.annotating (s.store.notes.withSignature node signature))
      (t.annotating (t.store.notes.withSignature node (signature.rename f)))
  withType : ∀ {n s t}, R n s t → ∀ e, T.types e → e.isLiteral = false → ∀ type,
    R n (s.annotating (s.store.notes.withType e.id type))
      (t.annotating (t.store.notes.withType e.id type))

namespace Concord

open Pass

variable {f : String → String} {T : Territory} {scope : ScopeRef → ScopeRef → Prop}
  {symbol : Nat → SymbolRef → SymbolRef → Prop} {R : Nat → Pass → Pass → Prop} {γ δ : Type}
  {P : γ → δ → Prop} {n : Nat}

/-! ## The steps of a pass -/

section Steps

variable (h : Concord f T scope symbol R)

include h

section Symbols

variable {s t : Pass} {c d : SymbolRef} (hR : R n s t) (hcd : symbol n c d)

include hR hcd

theorem cls_eq : (t.store.symbol d).cls = (s.store.symbol c).cls :=
  congrArg Interface.cls (h.interface hR c d hcd)

theorem type_eq : (t.store.symbol d).type = (s.store.symbol c).type :=
  congrArg Interface.type (h.interface hR c d hcd)

theorem position_eq : (t.store.symbol d).position = (s.store.symbol c).position :=
  congrArg Interface.position (h.interface hR c d hcd)

theorem signature_eq : (t.store.symbol d).signature
    = (s.store.symbol c).signature.map (Signature.rename f) :=
  congrArg Interface.signature (h.interface hR c d hcd)

end Symbols

theorem note (entry entry' : LogEntry) :
    Tandem f (R n) (fun _ _ => True) (note entry) (note entry') := by
  apply Tandem.change
  intro s t hR
  exact h.logged hR _ _

theorem report (severity : Severity) (position : Position) (finding : Finding) :
    Tandem f (R n) (fun _ _ => True) (report severity position finding)
      (report severity position (finding.rename f)) := by
  intro s t hR
  obtain ⟨log, hs⟩ := report_run s severity position finding
  obtain ⟨log', ht⟩ := report_run t severity position (finding.rename f)
  rw [hs, ht]
  exact ⟨trivial, h.logged (h.reporting hR [_]) log log'⟩

theorem recordScope {subject subject' : Subject} (hs : subject.Renames f subject') {node : NodeId}
    (hn : T.opens node) {a b : ScopeRef} (hab : scope a b) :
    Tandem f (R n) (fun _ _ => True) (recordScope node a subject) (recordScope node b subject') := by
  apply Tandem.record hs
  intro s t hR
  have hsame := h.opened hR node hn
  cases hs : s.store.notes.scopes.get node with
  | none =>
    have ht : t.store.notes.scopes.get node = none := by simpa [hs] using hsame.symm
    exact .inl ⟨_, _, Annotations.fillScope_eq a hs, Annotations.fillScope_eq b ht,
      h.withScope hR node hn a b hab⟩
  | some old =>
    obtain ⟨old', ht⟩ := Option.isSome_iff_exists.mp (by simpa [hs] using hsame.symm)
    exact .inr ⟨_, _, Annotations.fillScope_taken a hs, Annotations.fillScope_taken b ht⟩

theorem recordSignature {subject subject' : Subject} (hs : subject.Renames f subject')
    {node : NodeId} (hn : T.signs node) (signature : Signature) :
    Tandem f (R n) (fun _ _ => True) (recordSignature node signature subject)
      (recordSignature node (signature.rename f) subject') := by
  apply Tandem.record hs
  intro s t hR
  have hsame := h.signed hR node hn
  cases hs : s.store.notes.signatures.get node with
  | none =>
    have ht : t.store.notes.signatures.get node = none := by simpa [hs] using hsame.symm
    exact .inl ⟨_, _, Annotations.fillSignature_eq signature hs,
      Annotations.fillSignature_eq _ ht, h.withSignature hR node hn signature⟩
  | some old =>
    obtain ⟨old', ht⟩ := Option.isSome_iff_exists.mp (by simpa [hs] using hsame.symm)
    exact .inr ⟨_, _, Annotations.fillSignature_taken signature hs,
      Annotations.fillSignature_taken _ ht⟩

theorem recordSymbol {subject subject' : Subject} (hs : subject.Renames f subject') {node : NodeId}
    (hn : T.symbols node) {c d : SymbolRef} (hcd : symbol n c d) :
    Tandem f (R n) (fun _ _ => True) (recordSymbol node c subject)
      (recordSymbol node d subject') := by
  apply Tandem.record hs
  intro s t hR
  obtain ⟨m, -, -, hsame⟩ := h.slot hR node hn
  generalize hs : s.store.notes.symbols.get node = x at hsame
  generalize ht : t.store.notes.symbols.get node = y at hsame
  cases hsame with
  | none =>
    exact .inl ⟨_, _, Annotations.fillSymbol_eq c hs, Annotations.fillSymbol_eq d ht,
      h.withSymbol hR node hn c d hcd⟩
  | some hold =>
    exact .inr ⟨_, _, Annotations.fillSymbol_taken c hs, Annotations.fillSymbol_taken d ht⟩

theorem recordType {e : Expr} (he : T.types e ∧ e.isLiteral = false) (type : Ty) :
    Tandem f (R n) (fun _ _ => True) (recordType e type) (recordType (e.rename f) type) := by
  unfold Pass.recordType
  refine (h.note _ _).bind ?_
  intro _ _ _
  rw [Expr.position_rename]
  apply Tandem.record (.expression _)
  intro s t hR
  have hsame := h.type hR e he.1
  have hform : ∀ {e : Expr}, e.isLiteral = false → ∀ id token given, e ≠ .literal id token given := by
    rintro e hl id token given rfl
    cases hl
  have hform' := hform ((e.isLiteral_rename f).trans he.2)
  cases hs : s.store.notes.typeOf e with
  | none =>
    have ht : t.store.notes.typeOf (e.rename f) = none := by rw [← hsame, hs]
    rw [Annotations.typeOf_eq (hform he.2)] at hs
    rw [Annotations.typeOf_eq hform'] at ht
    have hstep := h.withType hR e he.1 he.2 type
    refine .inl ⟨_, _, Annotations.fillType_eq type (hform he.2) hs,
      Annotations.fillType_eq type hform' ht, ?_⟩
    rw [Expr.id_rename]
    exact hstep
  | some old =>
    have ht : t.store.notes.typeOf (e.rename f) = some old := by rw [← hsame, hs]
    exact .inr ⟨_, _, Annotations.fillType_taken type hs, Annotations.fillType_taken type ht⟩

theorem typeOf {e : Expr} (he : T.types e) :
    Tandem f (R n) Eq (typeOf e) (typeOf (e.rename f)) := by
  unfold Pass.typeOf
  apply Tandem.look
  intro s t hR
  exact ⟨h.type hR e he, hR⟩

/-- What comes after a symbol was read from a cell may rely on its being there. -/
theorem symbolOf_bind {node : NodeId} (hn : T.symbols node) {k : Option SymbolRef → PassM γ}
    {k' : Option SymbolRef → PassM δ}
    (hk : ∀ m x y, Option.Rel (symbol m) x y → Tandem f (R m) P (k x) (k' y)) :
    Tandem f (R n) P (symbolOf node >>= k) (symbolOf node >>= k') := by
  intro s t hR
  obtain ⟨m, hle, hRm, hrel⟩ := h.slot hR node hn
  exact (hk m _ _ hrel s t hRm).mono (h.fewer hle)

/-! ## Scopes -/

theorem createScope : Tandem f (R n) scope createScope createScope := by
  intro s t hR
  obtain ⟨hscope, hnext⟩ := h.entering hR
  exact ⟨hscope, h.logged hnext _ _⟩

theorem openScope (label label' : String) :
    Tandem f (R n) scope (openScope label) (openScope label') := by
  unfold Pass.openScope
  refine h.createScope.bind ?_
  intro a b hab
  apply Tandem.look
  intro s t hR
  exact ⟨hab, h.logged hR _ _⟩

theorem leaveScope : Tandem f (R n) (fun _ _ => True) leaveScope leaveScope := by
  unfold Pass.leaveScope
  apply Tandem.look
  intro s t hR
  have hactive := h.active hR
  generalize hs : s.stack.active = x at hactive
  generalize ht : t.stack.active = y at hactive
  cases hactive with
  | none => exact ⟨.scopeUnderflow, hR⟩
  | @some a b hab => exact ⟨trivial, h.logged (h.leaving hR a b hs ht hab) _ _⟩

theorem activeScope : Tandem f (R n) scope activeScope activeScope := by
  unfold Pass.activeScope
  apply Tandem.look
  intro s t hR
  have hactive := h.active hR
  generalize s.stack.active = a at hactive
  generalize t.stack.active = b at hactive
  cases hactive with
  | none => exact ⟨.noActiveScope, hR⟩
  | some hab => exact ⟨hab, hR⟩

/-! ## Names -/

/-- What comes after a symbol was made may rely on its being there. -/
theorem makeSymbol_bind {added : Symbol} (hrefs : added.refs = 0) {k : SymbolRef → PassM γ}
    {k' : SymbolRef → PassM δ}
    (hk : ∀ m c d, symbol m c d → Tandem f (R m) P (k c) (k' d)) :
    Tandem f (R n) P (makeSymbol added >>= k) (makeSymbol (added.rename f) >>= k') := by
  intro s t hR
  obtain ⟨m, hle, hcd, hRm⟩ := h.adding hR added hrefs
  exact (hk m _ _ hcd _ _ hRm).mono (h.fewer hle)

theorem bind {a b : ScopeRef} (hab : scope a b) {c d : SymbolRef} (hcd : symbol n c d) :
    Tandem f (R n) (Option.Rel (symbol n)) (Pass.bind a c) (Pass.bind b d) := by
  unfold Pass.bind
  apply Tandem.look
  intro s t hR
  have hname := h.name hR c d hcd
  obtain ⟨m, -, hRm, hfind⟩ := h.find hR a b hab (s.store.symbol c).name
  dsimp only
  rw [hname, h.position_eq hR hcd]
  generalize s.store.find? a (s.store.symbol c).name = x at hfind
  generalize t.store.find? b (f (s.store.symbol c).name) = y at hfind
  cases hfind with
  | none =>
    refine ((h.note _ _).bind ?_) s t hR
    intro _ _ _
    refine (Tandem.change ?_).bind fun _ _ _ => Tandem.value (.some hcd)
    intro s t hR
    exact h.binding hR a b hab c d hcd
  | @some old old' hold =>
    dsimp only
    rw [h.cls_eq hRm hold, h.position_eq hRm hold]
    exact ((h.report _ _ _).bind fun _ _ _ => Tandem.value .none) s t hR

theorem bindAt {subject subject' : Subject} (hs : subject.Renames f subject') {node : NodeId}
    (hn : T.symbols node) {c d : SymbolRef} (hcd : symbol n c d) :
    Tandem f (R n) (fun _ _ => True) (bindAt node c subject) (bindAt node d subject') := by
  unfold Pass.bindAt
  refine h.activeScope.bind fun a b hab => (h.bind hab hcd).bind ?_
  intro bound bound' hbound
  cases hbound with
  | none => exact Tandem.value trivial
  | some href =>
    exact (h.recordSymbol hs hn href).bind fun _ _ _ => Tandem.value trivial

theorem declare {decl : Decl} (hn : T.symbols decl.id) {added : Symbol} (hrefs : added.refs = 0) :
    Tandem f (R n) (fun _ _ => True) (declare decl added)
      (declare (decl.rename f) (added.rename f)) := by
  rw [declare_eq, declare_eq]
  refine h.makeSymbol_bind hrefs ?_
  intro m c d hcd
  have hbind := h.bindAt (.declaration decl) hn hcd
  have htype : (added.rename f).type = added.type := rfl
  rw [htype, Symbol.position_rename, Symbol.name_rename]
  by_cases hnothing : added.type = .nothing
  · simp only [if_pos hnothing]
    exact (h.report _ _ _).bind fun _ _ _ => hbind
  · simp only [if_neg hnothing]
    exact hbind

theorem declareData {decl : Decl} (hn : T.symbols decl.id) :
    Tandem f (R n) (fun _ _ => True) (declareData decl) (declareData (decl.rename f)) := by
  unfold Pass.declareData
  refine (Tandem.typeNamed decl.type).bind ?_
  rintro type _ rfl
  exact h.declare hn (show (Symbol.ofData decl type).refs = 0 from rfl)

theorem declareParam {decl : Decl} (hn : T.symbols decl.id) :
    Tandem f (R n) (fun _ _ => True) (declareParam decl) (declareParam (decl.rename f)) := by
  unfold Pass.declareParam
  refine (Tandem.typeNamed decl.type).bind ?_
  rintro type _ rfl
  apply Tandem.look
  intro s t hR
  rw [h.header hR]
  cases s.header with
  | none => exact ⟨.missingSignature _, hR⟩
  | some header =>
    have hdeclare := h.declare hn (n := n) (show (Symbol.ofParam decl type).refs = 0 from rfl)
    refine ((Tandem.change ?_).bind fun _ _ _ => hdeclare) s t hR
    intro s t hR
    exact h.heading hR (some _)

theorem declareFunction {g : Function} (hn : T.symbols g.id) :
    Tandem f (R n) (fun _ _ => True) (declareFunction g) (declareFunction (g.rename f)) := by
  intro s t hR
  have hheader := h.header hR
  cases hs : s.header with
  | some unfinished =>
    rw [hs] at hheader
    unfold Pass.declareFunction
    rw [EStateM.run_bind, EStateM.run_bind, EStateM.run_get, EStateM.run_get]
    dsimp only
    rw [hs, hheader]
    exact ⟨.nestedSignature _ _, hR⟩
  | none =>
    rw [hs] at hheader
    rw [declareFunction_eq g hs, declareFunction_eq (g.rename f) hheader]
    refine (Tandem.typeNamed g.returns).bind ?_ s t hR
    rintro returns _ rfl
    refine h.makeSymbol_bind (show (Symbol.ofFunction g returns).refs = 0 from rfl) fun m c d hcd => ?_
    refine (h.bindAt (.function g.name.name) hn hcd).bind ?_
    intro _ _ _
    refine (Tandem.change ?_).bind fun _ _ _ => Tandem.value trivial
    intro s t hR
    exact h.heading hR (some _)

theorem signSymbol (signature : Signature) {subject subject' : Subject}
    (hs : subject.Renames f subject') {c d : SymbolRef} (hcd : symbol n c d) :
    Tandem f (R n) (fun _ _ => True) (signSymbol c signature subject)
      (signSymbol d (signature.rename f) subject') := by
  unfold Pass.signSymbol
  apply Tandem.look
  intro s t hR
  dsimp only
  rw [h.signature_eq hR hcd, Option.isSome_map]
  by_cases hsome : (s.store.symbol c).signature.isSome
  · simp only [if_pos hsome]
    exact ⟨.reannotated hs, hR⟩
  · simp only [if_neg hsome]
    exact ⟨trivial, h.signing hR c d hcd signature⟩

theorem finishSignature {g : Function} (hn : T.symbols g.id ∧ T.signs g.id) :
    Tandem f (R n) (fun _ _ => True) (finishSignature g) (finishSignature (g.rename f)) := by
  unfold Pass.finishSignature
  apply Tandem.look
  intro s t hR
  rw [h.header hR]
  cases s.header with
  | none => exact ⟨.missingSignature _, hR⟩
  | some signature =>
    refine (Tandem.change ?_).bind ?_ s t hR
    · intro s t hR
      exact h.heading hR none
    intro _ _ _
    refine (h.note _ _).bind fun _ _ _ =>
      (h.recordSignature (.signatureOf g.name.name) hn.2 signature).bind ?_
    intro _ _ _
    refine h.symbolOf_bind hn.1 ?_
    intro m slot slot' hslot
    cases hslot with
    | none => exact Tandem.value trivial
    | some hcd => exact h.signSymbol signature (.signatureOf g.name.name) hcd

theorem markInit {c d : SymbolRef} (hcd : symbol n c d) :
    Tandem f (R n) (fun _ _ => True) (markInit c) (markInit d) := by
  apply Tandem.change
  intro s t hR
  exact h.initing hR c d hcd

/-- A name that is used in a fitting way counts, in both states or in none of them. -/
theorem resolveAt {subject subject' : Subject} (hs : subject.Renames f subject') {node : NodeId}
    (hn : T.symbols node ∧ T.counts) (name : Identifier) (use : Use) :
    Tandem f (R n) (fun _ _ => True) (resolveAt node name use subject)
      (resolveAt node (name.rename f) use subject') := by
  unfold Pass.resolveAt
  refine h.activeScope.bind fun a b hab => ?_
  unfold Pass.resolve
  rw [bind_assoc, bind_assoc]
  apply Tandem.look
  intro s t hR
  obtain ⟨m, hle, hRm, hfind⟩ := h.find hR a b hab name.name
  dsimp only [Identifier.rename]
  generalize s.store.find? a name.name = x at hfind
  generalize t.store.find? b (f name.name) = y at hfind
  cases hfind with
  | none => exact h.report _ _ (.semantic (.undefinedSymbol _)) s t hR
  | @some c d hcd =>
    dsimp only
    rw [h.cls_eq hRm hcd]
    by_cases hfits : (s.store.symbol c).cls = use.expects
    · simp only [if_pos hfits, bind_assoc, pure_bind]
      refine Agree.mono ?_ (h.fewer hle)
      refine (Tandem.change ?_).bind ?_ s t hRm
      · intro s t hR
        exact h.counting hn.2 hR c d hcd
      intro _ _ _
      exact (h.note _ _).bind fun _ _ _ => h.recordSymbol hs hn.1 hcd
    · simp only [if_neg hfits, ← Use.rename_mismatch]
      exact h.report _ _ (.semantic _) s t hR

/-! ## Types -/

theorem apply (position : Position) (checked : Except TypeError Checked) :
    Tandem f (R n) Eq (apply position checked) (apply position checked) := by
  unfold Pass.apply
  cases checked with
  | error e => exact (h.report _ _ (.typing e)).bind fun _ _ _ => Tandem.value rfl
  | ok result =>
    obtain ⟨type, warning⟩ := result
    cases warning with
    | none => exact Tandem.value rfl
    | some warning =>
      exact (h.report _ _ (.conversion warning)).bind fun _ _ _ => Tandem.value rfl

theorem typeBy {e : Expr} (he : T.types e ∧ e.isLiteral = false) (position : Position)
    (checked : Except TypeError Checked) :
    Tandem f (R n) (fun _ _ => True) (typeBy e position checked)
      (typeBy (e.rename f) position checked) := by
  unfold Pass.typeBy
  refine (h.apply position checked).bind ?_
  rintro type _ rfl
  cases type with
  | none => exact Tandem.value trivial
  | some type => exact h.recordType he type

theorem checkReturn (keyword : Token) {value : Option Expr} (hv : ∀ e ∈ value, T.types e) :
    Tandem f (R n) (fun _ _ => True) (checkReturn keyword value)
      (checkReturn keyword (value.map (Expr.rename f))) := by
  unfold Pass.checkReturn
  apply Tandem.look
  intro s t hR
  have hface := h.function hR
  cases hs : s.function with
  | none =>
    have ht : t.function = none := by simpa [hs] using hface
    rw [ht]
    exact ⟨trivial, hR⟩
  | some g =>
    rw [hs] at hface
    obtain ⟨g', ht, hg⟩ := Option.map_eq_some_iff.mp hface
    -- all that the check takes from the function are its name and its return type
    have hname : g'.name.name = f g.name.name := congrArg Prod.fst hg
    have hreturns : g'.returns = g.returns := congrArg Prod.snd hg
    rw [ht]
    dsimp only
    rw [hname, hreturns]
    refine (Tandem.typeNamed g.returns).bind ?_ s t hR
    rintro returns _ rfl
    cases value with
    | none =>
      by_cases hnothing : returns = .nothing
      · simp only [ne_eq, hnothing, not_true, if_false]
        exact Tandem.value trivial
      · simp only [ne_eq, hnothing, not_false_eq_true, if_true]
        exact h.report _ _ (.semantic (.missingReturnValue _ _))
    | some value =>
      by_cases hnothing : returns = .nothing
      · simp only [if_pos hnothing]
        exact h.report _ _ (.semantic (.unexpectedReturnValue _))
      · simp only [if_neg hnothing]
        refine (h.typeOf (hv value rfl)).bind ?_
        rintro type _ rfl
        cases type with
        | none => exact Tandem.value trivial
        | some type => exact (h.apply _ _).bind fun _ _ _ => Tandem.value trivial

theorem checkInit {d : DataDef} (hn : T.symbols d.decl.id) (hv : ∀ e ∈ d.init, T.types e) :
    Tandem f (R n) (fun _ _ => True) (checkInit d) (checkInit (d.rename f)) := by
  unfold Pass.checkInit
  refine (Tandem.typeNamed d.decl.type).bind ?_
  rintro target _ rfl
  by_cases hnothing : target = .nothing
  · simp only [if_pos hnothing]
    exact Tandem.value trivial
  simp only [if_neg hnothing]
  obtain ⟨decl, init⟩ := d
  cases init with
  | none => exact Tandem.value trivial
  | some init =>
    refine (h.typeOf (hv init rfl)).bind ?_
    rintro value _ rfl
    cases value with
    | none => exact Tandem.value trivial
    | some value =>
      refine (h.apply _ _).bind ?_
      rintro type _ rfl
      cases type with
      | none => exact Tandem.value trivial
      | some type =>
        refine h.symbolOf_bind hn ?_
        intro m slot slot' hslot
        cases hslot with
        | none => exact Tandem.value trivial
        | some hcd => exact h.markInit hcd

theorem checkAssign {a : Assignment} (hn : T.symbols a.id ∧ T.types a.value) :
    Tandem f (R n) (fun _ _ => True) (checkAssign a) (checkAssign (a.rename f)) := by
  unfold Pass.checkAssign
  refine h.symbolOf_bind hn.1 ?_
  intro m slot slot' hslot
  cases hslot with
  | none => exact Tandem.value trivial
  | @some c d hcd =>
    refine (h.typeOf hn.2).bind ?_
    rintro value _ rfl
    cases value with
    | none => exact Tandem.value trivial
    | some value =>
      apply Tandem.look
      intro s t hR
      dsimp only
      rw [h.type_eq hR hcd]
      refine (h.apply _ _).bind ?_ s t hR
      rintro type _ rfl
      cases type with
      | none => exact Tandem.value trivial
      | some type => exact h.markInit hcd

theorem checkCall {e : Expr} {args : List Expr} (callee : Identifier) (hn : T.symbols e.nameNode)
    (he : T.types e ∧ e.isLiteral = false) (ha : ∀ a ∈ args, T.types a) :
    Tandem f (R n) (fun _ _ => True) (checkCall e callee args)
      (checkCall (e.rename f) (callee.rename f) (Expr.renameList f args)) := by
  unfold Pass.checkCall
  rw [Expr.nameNode_rename]
  refine h.symbolOf_bind hn ?_
  intro m slot slot' hslot
  cases hslot with
  | none => exact Tandem.value trivial
  | @some c d hcd =>
    apply Tandem.look
    intro s t hR
    have hargs : (Expr.renameList f args).map t.store.notes.typeOf
        = args.map s.store.notes.typeOf := by
      rw [Expr.renameList_eq_map, List.map_map]
      exact List.map_congr_left fun a hm => (h.type hR a (ha a hm)).symm
    dsimp only
    rw [h.signature_eq hR hcd, h.name hR c d hcd, hargs]
    cases (s.store.symbol c).signature with
    | none => exact ⟨.missingSignature _, hR⟩
    | some signature =>
      dsimp only [Option.map_some]
      rw [Signature.validate_rename]
      cases signature.validate (args.map s.store.notes.typeOf) with
      | ok u => exact h.recordType he _ s t hR
      | error fault =>
        exact ((h.report _ _ (.call fault)).bind fun _ _ _ => h.recordType he _) s t hR

end Steps

/-! ## Events -/

/-- **Two checks stay in step at an event.** -/
theorem visit (h : Concord f T scope symbol R) {event : Event} (hw : event.Within T) :
    Tandem f (R n) (fun _ _ => True) (visit event) (visit (event.rename f)) := by
  unfold Pass.visit
  -- event by event, what the step consists of is put together with `bind`; the rest of the proof is
  -- the order of the parts
  cases event with
  | enterProgram p =>
    exact (h.openScope _ _).bind fun a b hab => h.recordScope (.program p.file) hw hab
  | enterBlock block =>
    obtain ⟨id, brace, body⟩ := block
    exact (h.openScope _ _).bind fun a b hab => h.recordScope (.block _) hw hab
  | exitProgram p => exact h.leaveScope.bind fun _ _ _ => Tandem.value trivial
  | exitBlock block => exact h.leaveScope.bind fun _ _ _ => Tandem.value trivial
  | enterStart start =>
    apply Tandem.change
    intro s t hR
    exact h.inside hR none
  | enterFunction g =>
    refine (h.declareFunction hw.1).bind fun _ _ _ => (h.openScope _ _).bind fun a b hab => ?_
    refine (h.recordScope (.scopeOf g.name.name) hw.2 hab).bind fun _ _ _ => Tandem.change ?_
    intro s t hR
    exact h.inside hR (some g)
  | exitFunction g =>
    refine h.leaveScope.bind fun _ _ _ => Tandem.change ?_
    intro s t hR
    exact h.inside hR none
  | enterDecl d => exact (h.declareData hw).bind fun _ _ _ => Tandem.value trivial
  | enterParam g d => exact (h.declareParam hw).bind fun _ _ _ => Tandem.value trivial
  | exitParams g => exact h.finishSignature hw
  | exitData d => exact h.checkInit hw.1 hw.2
  | enterAssign a => exact h.resolveAt (.assignment _) hw _ _
  | exitAssign a => exact h.checkAssign hw
  | exitReturn keyword value => exact h.checkReturn keyword hw
  | exitLiteral e token =>
    refine (h.typeOf hw).bind ?_
    rintro type _ rfl
    cases type with
    | none => exact Tandem.fail (.untypedLiteral _ _)
    | some type => exact Tandem.value trivial
  | enterVariable e name =>
    simp only [Event.rename, Expr.nameNode_rename]
    exact h.resolveAt (.variable _) hw _ _
  | exitVariable e name =>
    simp only [Event.rename, Expr.nameNode_rename]
    refine h.symbolOf_bind hw.1 ?_
    intro m slot slot' hslot
    cases hslot with
    | none => exact Tandem.value trivial
    | @some c d hcd =>
      apply Tandem.look
      intro s t hR
      rw [h.type_eq hR hcd]
      exact h.recordType hw.2 _ s t hR
  | enterCall e callee args =>
    simp only [Event.rename, Expr.nameNode_rename]
    exact h.resolveAt (.call _) hw _ _
  | exitCall e callee args => exact h.checkCall callee hw.1 hw.2.1 hw.2.2
  | exitBinary e op token lhs rhs =>
    refine (h.typeOf hw.2.1).bind ?_
    rintro left _ rfl
    cases left with
    | none => exact Tandem.value trivial
    | some left =>
      refine (h.typeOf hw.2.2).bind ?_
      rintro right _ rfl
      cases right with
      | none => exact Tandem.value trivial
      | some right => exact h.typeBy hw.1 _ _
  | exitUnary e op token operand =>
    refine (h.typeOf hw.2).bind ?_
    rintro type _ rfl
    cases type with
    | none => exact Tandem.value trivial
    | some type => exact h.typeBy hw.1 _ _
  | exitCast e target operand =>
    refine (Tandem.typeNamed target).bind ?_
    rintro type _ rfl
    refine (h.typeOf hw.2).bind ?_
    rintro source _ rfl
    cases source with
    | none => exact Tandem.value trivial
    | some source => exact h.typeBy hw.1 _ _
  | exitGrouped e inner =>
    refine (h.typeOf hw.2).bind ?_
    rintro type _ rfl
    cases type with
    | none => exact Tandem.value trivial
    | some type => exact h.recordType hw.1 _
  | exitFormat e token args => exact h.recordType hw _
  | _ => exact Tandem.value trivial

/-- **Two checks stay in step** over any number of events. -/
theorem run (h : Concord f T scope symbol R) {events : List Event}
    (hw : ∀ event ∈ events, event.Within T) :
    Tandem f (R n) (fun _ _ => True) (forM events Pass.visit : PassM PUnit)
      (forM (events.map (Event.rename f)) Pass.visit : PassM PUnit) :=
  Tandem.forM fun event hm => h.visit (hw event hm)

theorem check (h : Concord f T scope symbol R) {p : Program}
    (hw : ∀ event ∈ p.events, event.Within T) :
    Tandem f (R n) (fun _ _ => True) (check p) (check (p.rename f)) := by
  unfold Pass.check
  rw [Program.walk_eq_forM, Program.walk_eq_forM, Program.events_rename]
  exact (h.note _ _).bind fun _ _ _ => h.run hw

end Concord

end Semant
