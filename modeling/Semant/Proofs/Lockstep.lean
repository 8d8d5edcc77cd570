import Semant.Proofs.Tandem

/-!
# Two checks in step

A check can be run in many stores. What surrounds it there (scopes and symbols of other programs,
cells of other trees, how often a symbol has been used so far) should make no difference to what it
does, and the statements that say so all have one shape: run the same events in two states, and if
the states were alike before, they are alike after.

What *alike* means differs from one statement to the next. `Accord` lists what a relation between states
has to offer for a check not to notice the difference: the few things that a check reads have to agree,
and the few changes that it makes have to keep the relation. It is what `Concord` asks for if no name is
changed, and so two checks stay in step (`Accord.visit`, `Accord.run`). An invariant of one check is
the special case of a check beside itself (`Stable`).

Neither list is conditional on a check going well. Two checks in step stop at the same event with the
same error, and even then the states they leave are alike.
-/

set_option autoImplicit false

namespace Semant

namespace Pass

/-! ## Steps that end alike -/

variable {α β γ δ : Type}

/-- Both steps go through, with values that belong together, or both stop with the same error. Either
way the states are alike. -/
def Meet (R : Pass → Pass → Prop) (Q : α → β → Prop) :
    EStateM.Result InternalError Pass α → EStateM.Result InternalError Pass β → Prop
  | .ok a s, .ok b t => Q a b ∧ R s t
  | .error e s, .error e' t => e = e' ∧ R s t
  | _, _ => False

/-- From states that are alike, two steps end alike. -/
def Lockstep (R : Pass → Pass → Prop) (Q : α → β → Prop) (x : PassM α) (y : PassM β) : Prop :=
  ∀ s t, R s t → Meet R Q (x.run s) (y.run t)

theorem Tandem.lockstep {R : Pass → Pass → Prop} {Q : α → β → Prop} {x : PassM α} {y : PassM β}
    (h : Tandem sameName R Q x y) : Lockstep R Q x y := by
  intro s t hR
  have hagree := h s t hR
  cases hs : x.run s with
  | ok a s' =>
    cases ht : y.run t with
    | ok b t' =>
      rw [hs, ht] at hagree
      exact hagree
    | error e t' =>
      rw [hs, ht] at hagree
      exact hagree
  | error e s' =>
    cases ht : y.run t with
    | ok b t' =>
      rw [hs, ht] at hagree
      exact hagree
    | error e' t' =>
      rw [hs, ht] at hagree
      exact ⟨hagree.1.eq, hagree.2⟩

theorem Lockstep.bind {R : Pass → Pass → Prop} {Q : α → β → Prop} {P : γ → δ → Prop}
    {x : PassM α} {y : PassM β} {f : α → PassM γ} {g : β → PassM δ}
    (hx : Lockstep R Q x y) (hf : ∀ a b, Q a b → Lockstep R P (f a) (g b)) :
    Lockstep R P (x >>= f) (y >>= g) := by
  intro s t hR
  have hmeet := hx s t hR
  rw [EStateM.run_bind, EStateM.run_bind]
  cases hs : x.run s with
  | ok a s' =>
    cases ht : y.run t with
    | ok b t' =>
      rw [hs, ht] at hmeet
      exact hf a b hmeet.1 s' t' hmeet.2
    | error e t' =>
      rw [hs, ht] at hmeet
      exact hmeet.elim
  | error e s' =>
    cases ht : y.run t with
    | ok b t' =>
      rw [hs, ht] at hmeet
      exact hmeet.elim
    | error e' t' =>
      rw [hs, ht] at hmeet
      exact hmeet

end Pass

/-! ## What a relation has to offer -/

/-- States are alike as far as a check inside the territory can tell. Scopes and symbols may be at
different places in the two stores; `scope` and `symbol` say which of them correspond. -/
structure Accord (T : Territory) (scope : ScopeRef → ScopeRef → Prop)
    (symbol : SymbolRef → SymbolRef → Prop) (R : Pass → Pass → Prop) : Prop where
  header : ∀ {s t}, R s t → s.header = t.header
  function : ∀ {s t}, R s t → s.function.map Function.face = t.function.map Function.face
  active : ∀ {s t}, R s t → Option.Rel scope s.stack.active t.stack.active
  type : ∀ {s t}, R s t → ∀ e, T.types e → s.store.notes.typeOf e = t.store.notes.typeOf e
  slot : ∀ {s t}, R s t → ∀ n, T.symbols n →
    Option.Rel symbol (s.store.notes.symbols.get n) (t.store.notes.symbols.get n)
  opened : ∀ {s t}, R s t → ∀ n, T.opens n →
    (s.store.notes.scopes.get n).isSome = (t.store.notes.scopes.get n).isSome
  signed : ∀ {s t}, R s t → ∀ n, T.signs n →
    (s.store.notes.signatures.get n).isSome = (t.store.notes.signatures.get n).isSome
  name : ∀ {s t}, R s t → ∀ a b, symbol a b → (s.store.symbol a).name = (t.store.symbol b).name
  interface : ∀ {s t}, R s t → ∀ a b, symbol a b →
    (s.store.symbol a).interface = (t.store.symbol b).interface
  find : ∀ {s t}, R s t → ∀ a b, scope a b → ∀ name,
    Option.Rel symbol (s.store.find? a name) (t.store.find? b name)
  -- What follows are the changes. The log is not compared.
  logged : ∀ {s t}, R s t → ∀ l l', R (s.logged l) (t.logged l')
  reporting : ∀ {s t}, R s t → ∀ ds, R (s.reporting ds) (t.reporting ds)
  heading : ∀ {s t}, R s t → ∀ header, R (s.heading header) (t.heading header)
  inside : ∀ {s t}, R s t → ∀ function, R (s.inside function) (t.inside function)
  entering : ∀ {s t}, R s t →
    scope s.store.scopes.size t.store.scopes.size ∧ R s.entering t.entering
  leaving : ∀ {s t}, R s t → ∀ a b, s.stack.active = some a → t.stack.active = some b →
    scope a b → R (s.leaving a) (t.leaving b)
  adding : ∀ {s t}, R s t → ∀ added : Symbol, added.refs = 0 →
    symbol s.store.symbols.size t.store.symbols.size ∧
      R (s.storing (s.store.addSymbol added)) (t.storing (t.store.addSymbol added))
  binding : ∀ {s t}, R s t → ∀ a b, scope a b → ∀ c d, symbol c d →
    R (s.storing (s.store.bindIn a c)) (t.storing (t.store.bindIn b d))
  signing : ∀ {s t}, R s t → ∀ c d, symbol c d → ∀ signature : Signature,
    R (s.changing c fun x => { x with signature := some signature })
      (t.changing d fun x => { x with signature := some signature })
  initing : ∀ {s t}, R s t → ∀ c d, symbol c d →
    R (s.changing c fun x => { x with isInit := true })
      (t.changing d fun x => { x with isInit := true })
  counting : T.counts → ∀ {s t}, R s t → ∀ c d, symbol c d →
    R (s.changing c fun x => { x with refs := x.refs + 1 })
      (t.changing d fun x => { x with refs := x.refs + 1 })
  withScope : ∀ {s t}, R s t → ∀ n, T.opens n → ∀ a b, scope a b →
    R (s.annotating (s.store.notes.withScope n a)) (t.annotating (t.store.notes.withScope n b))
  withSymbol : ∀ {s t}, R s t → ∀ n, T.symbols n → ∀ c d, symbol c d →
    R (s.annotating (s.store.notes.withSymbol n c)) (t.annotating (t.store.notes.withSymbol n d))
  withSignature : ∀ {s t}, R s t → ∀ n, T.signs n → ∀ signature,
    R (s.annotating (s.store.notes.withSignature n signature))
      (t.annotating (t.store.notes.withSignature n signature))
  withType : ∀ {s t}, R s t → ∀ e, T.types e → e.isLiteral = false → ∀ type,
    R (s.annotating (s.store.notes.withType e.id type))
      (t.annotating (t.store.notes.withType e.id type))

namespace Accord

open Pass

variable {T : Territory} {scope : ScopeRef → ScopeRef → Prop}
  {symbol : SymbolRef → SymbolRef → Prop} {R : Pass → Pass → Prop}

/-- Nothing is renamed, and what corresponds does so at every level. -/
theorem concord (h : Accord T scope symbol R) :
    Concord sameName T scope (fun _ => symbol) fun _ => R where
  -- the level says how many symbols are known, and an accord knows all it needs
  fewer _ _ _ hR := hR
  header := by
    intro n s t hR
    simp [← h.header hR]
  function := by
    intro n s t hR
    simp [← h.function hR]
  active hR := h.active hR
  type := by
    intro n s t hR e he
    rw [Expr.rename_same]
    exact h.type hR e he
  slot := by
    intro n s t hR node hn
    exact ⟨n, Nat.le_refl n, hR, h.slot hR node hn⟩
  opened hR := h.opened hR
  signed hR := h.signed hR
  name hR a b hab := (h.name hR a b hab).symm
  interface := by
    intro n s t hR a b hab
    rw [Interface.rename_same]
    exact (h.interface hR a b hab).symm
  find := by
    intro n s t hR a b hab name
    exact ⟨n, Nat.le_refl n, hR, h.find hR a b hab name⟩
  logged hR := h.logged hR
  reporting := by
    intro n s t hR ds
    rw [List.map_id'' Diagnostic.rename_same]
    exact h.reporting hR ds
  heading := by
    intro n s t hR header
    simpa using h.heading hR header
  inside := by
    intro n s t hR function
    simpa using h.inside hR function
  entering hR := h.entering hR
  leaving hR := h.leaving hR
  adding := by
    intro n s t hR added hrefs
    rw [Symbol.rename_same]
    exact ⟨n, Nat.le_refl n, h.adding hR added hrefs⟩
  binding hR := h.binding hR
  signing hR := h.signing hR
  initing hR := h.initing hR
  counting hc _ _ _ hR := h.counting hc hR
  withScope hR := h.withScope hR
  withSymbol hR := h.withSymbol hR
  withSignature hR := h.withSignature hR
  withType hR := h.withType hR

theorem note (h : Accord T scope symbol R) (entry entry' : LogEntry) :
    Lockstep R (fun _ _ => True) (note entry) (note entry') :=
  (h.concord.note (n := 0) entry entry').lockstep

/-- **Two checks stay in step at an event.** -/
theorem visit (h : Accord T scope symbol R) {event : Event} (hw : event.Within T) :
    Lockstep R (fun _ _ => True) (visit event) (visit event) := by
  have htandem := h.concord.visit (n := 0) hw
  rw [Event.rename_same] at htandem
  exact htandem.lockstep

/-- **Two checks stay in step** over any number of events. -/
theorem run (h : Accord T scope symbol R) {events : List Event}
    (hw : ∀ event ∈ events, event.Within T) :
    Lockstep R (fun _ _ => True) (forM events Pass.visit : PassM PUnit)
      (forM events Pass.visit : PassM PUnit) := by
  have htandem := h.concord.run (n := 0) hw
  rw [List.map_id'' Event.rename_same] at htandem
  exact htandem.lockstep

theorem check (h : Accord T scope symbol R) {p : Program}
    (hw : ∀ event ∈ p.events, event.Within T) :
    Lockstep R (fun _ _ => True) (check p) (check p) := by
  have htandem := h.concord.check (n := 0) hw
  rw [Program.rename_same] at htandem
  exact htandem.lockstep

end Accord

/-! ## One check beside itself -/

/-- The state in which a step ends, whether it went through or not. -/
def Pass.after {α : Type} : EStateM.Result InternalError Pass α → Pass
  | .ok _ s => s
  | .error _ s => s

/-- The error with which a step stops. -/
def Pass.failure? {α : Type} : EStateM.Result InternalError Pass α → Option InternalError
  | .ok _ _ => none
  | .error e _ => some e

/-- What is asked of an invariant: each change that a check makes inside a territory keeps it. -/
structure Stable (T : Territory) (I : Pass → Prop) : Prop where
  logged : ∀ {s}, I s → ∀ log, I (s.logged log)
  reporting : ∀ {s}, I s → ∀ ds, I (s.reporting ds)
  heading : ∀ {s}, I s → ∀ header, I (s.heading header)
  inside : ∀ {s}, I s → ∀ function, I (s.inside function)
  entering : ∀ {s}, I s → I s.entering
  leaving : ∀ {s}, I s → ∀ scope, s.stack.active = some scope → I (s.leaving scope)
  adding : ∀ {s}, I s → ∀ added : Symbol, added.refs = 0 → I (s.storing (s.store.addSymbol added))
  binding : ∀ {s}, I s → ∀ scope ref, I (s.storing (s.store.bindIn scope ref))
  signing : ∀ {s}, I s → ∀ ref, ∀ signature : Signature,
    I (s.changing ref fun x => { x with signature := some signature })
  initing : ∀ {s}, I s → ∀ ref, I (s.changing ref fun x => { x with isInit := true })
  counting : T.counts → ∀ {s}, I s → ∀ ref,
    I (s.changing ref fun x => { x with refs := x.refs + 1 })
  withScope : ∀ {s}, I s → ∀ n, T.opens n → ∀ scope,
    I (s.annotating (s.store.notes.withScope n scope))
  withSymbol : ∀ {s}, I s → ∀ n, T.symbols n → ∀ ref,
    I (s.annotating (s.store.notes.withSymbol n ref))
  withSignature : ∀ {s}, I s → ∀ n, T.signs n → ∀ signature,
    I (s.annotating (s.store.notes.withSignature n signature))
  withType : ∀ {s}, I s → ∀ e, T.types e → e.isLiteral = false → ∀ type,
    I (s.annotating (s.store.notes.withType e.id type))

theorem Option.Rel.refl_eq {α : Type} (x : Option α) : Option.Rel Eq x x := by
  cases x with
  | none => exact .none
  | some a => exact .some rfl

namespace Stable

open Pass

variable {T : Territory} {I : Pass → Prop}

/-- The two sides are equal but for their logs, since nothing is assumed of these. -/
theorem accord (h : Stable T I) :
    Accord T Eq Eq fun s t => (∃ log, t = s.logged log) ∧ I s where
  -- read from one run, an accord of a state with itself says that the invariant survives
  header := by rintro s _ ⟨⟨log, rfl⟩, hI⟩; rfl
  function := by rintro s _ ⟨⟨log, rfl⟩, hI⟩; rfl
  active := by rintro s _ ⟨⟨log, rfl⟩, hI⟩; exact Option.Rel.refl_eq _
  type := by rintro s _ ⟨⟨log, rfl⟩, hI⟩ e he; rfl
  slot := by rintro s _ ⟨⟨log, rfl⟩, hI⟩ n hn; exact Option.Rel.refl_eq _
  opened := by rintro s _ ⟨⟨log, rfl⟩, hI⟩ n hn; rfl
  signed := by rintro s _ ⟨⟨log, rfl⟩, hI⟩ n hn; rfl
  name := by rintro s _ ⟨⟨log, rfl⟩, hI⟩ a _ rfl; rfl
  interface := by rintro s _ ⟨⟨log, rfl⟩, hI⟩ a _ rfl; rfl
  find := by rintro s _ ⟨⟨log, rfl⟩, hI⟩ a _ rfl name; exact Option.Rel.refl_eq _
  logged := by rintro s _ ⟨⟨log, rfl⟩, hI⟩ l l'; exact ⟨⟨l', rfl⟩, h.logged hI l⟩
  reporting := by rintro s _ ⟨⟨log, rfl⟩, hI⟩ ds; exact ⟨⟨log, rfl⟩, h.reporting hI ds⟩
  heading := by rintro s _ ⟨⟨log, rfl⟩, hI⟩ header; exact ⟨⟨log, rfl⟩, h.heading hI header⟩
  inside := by rintro s _ ⟨⟨log, rfl⟩, hI⟩ f; exact ⟨⟨log, rfl⟩, h.inside hI f⟩
  entering := by rintro s _ ⟨⟨log, rfl⟩, hI⟩; exact ⟨rfl, ⟨log, rfl⟩, h.entering hI⟩
  leaving := by
    rintro s _ ⟨⟨log, rfl⟩, hI⟩ a _ ha _ rfl
    exact ⟨⟨log, rfl⟩, h.leaving hI a ha⟩
  adding := by
    rintro s _ ⟨⟨log, rfl⟩, hI⟩ added hrefs
    exact ⟨rfl, ⟨log, rfl⟩, h.adding hI added hrefs⟩
  binding := by
    rintro s _ ⟨⟨log, rfl⟩, hI⟩ a _ rfl c _ rfl
    exact ⟨⟨log, rfl⟩, h.binding hI a c⟩
  signing := by
    rintro s _ ⟨⟨log, rfl⟩, hI⟩ c _ rfl signature
    exact ⟨⟨log, rfl⟩, h.signing hI c signature⟩
  initing := by
    rintro s _ ⟨⟨log, rfl⟩, hI⟩ c _ rfl
    exact ⟨⟨log, rfl⟩, h.initing hI c⟩
  counting := by
    rintro hc s _ ⟨⟨log, rfl⟩, hI⟩ c _ rfl
    exact ⟨⟨log, rfl⟩, h.counting hc hI c⟩
  withScope := by
    rintro s _ ⟨⟨log, rfl⟩, hI⟩ n hn a _ rfl
    exact ⟨⟨log, rfl⟩, h.withScope hI n hn a⟩
  withSymbol := by
    rintro s _ ⟨⟨log, rfl⟩, hI⟩ n hn c _ rfl
    exact ⟨⟨log, rfl⟩, h.withSymbol hI n hn c⟩
  withSignature := by
    rintro s _ ⟨⟨log, rfl⟩, hI⟩ n hn signature
    exact ⟨⟨log, rfl⟩, h.withSignature hI n hn signature⟩
  withType := by
    rintro s _ ⟨⟨log, rfl⟩, hI⟩ e he hform type
    exact ⟨⟨log, rfl⟩, h.withType hI e he hform type⟩

/-- What holds before a step that is in step with itself holds after it. -/
theorem after {α : Type} {x : PassM α} {Q : α → α → Prop} {s : Pass}
    (hx : Lockstep (fun s t => (∃ log, t = s.logged log) ∧ I s) Q x x) (hI : I s) :
    I (Pass.after (x.run s)) := by
  have hmeet := hx s s ⟨⟨s.log, rfl⟩, hI⟩
  cases hr : x.run s with
  | ok a s' =>
    rw [hr] at hmeet
    exact hmeet.2.2
  | error e s' =>
    rw [hr] at hmeet
    exact hmeet.2.2

/-- **An invariant that every change keeps holds where a check ends**, even if it stops early. -/
theorem run (h : Stable T I) {events : List Event} (hw : ∀ event ∈ events, event.Within T)
    {s : Pass} (hI : I s) : I (Pass.after ((forM events Pass.visit : PassM PUnit).run s)) :=
  after (h.accord.run hw) hI

theorem check (h : Stable T I) {p : Program} (hw : ∀ event ∈ p.events, event.Within T) {s : Pass}
    (hI : I s) : I (Pass.after ((Pass.check p).run s)) :=
  after (h.accord.check hw) hI

end Stable

end Semant
