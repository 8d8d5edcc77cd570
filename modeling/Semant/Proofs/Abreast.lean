import Semant.Proofs.Lockstep

/-!
# One item behind different items

Two programs share an item, and two checks have come to it. What they have read before differs: the
stores hold other scopes and symbols, at other places. What matters to the item is the scope of the
program, which both have open, and of this only how its names look from outside (`Store.interface?`).
If they look the same, the checks stay in step from here on (`Pass.Abreast.accord`).

Which places correspond is fixed when the item begins. The scopes of the two programs do, and so do
symbols with the same name in them; what is made later corresponds in the order in which it is made
(`Paired`). Scopes and symbols from inside earlier items correspond to nothing. Nothing that the item
can reach leads to them.
-/

set_option autoImplicit false

namespace Semant

theorem Option.Rel.or {α β : Type} {r : α → β → Prop} {x y : Option α} {x' y' : Option β}
    (hx : Option.Rel r x x') (hy : Option.Rel r y y') : Option.Rel r (x.or y) (x'.or y') := by
  cases hx with
  | none => exact hy
  | some hab => exact .some hab

theorem Option.Rel.bind {α β γ δ : Type} {r : α → β → Prop} {q : γ → δ → Prop} {x : Option α}
    {x' : Option β} {f : α → Option γ} {g : β → Option δ} (hx : Option.Rel r x x')
    (hf : ∀ a b, x = some a → r a b → Option.Rel q (f a) (g b)) :
    Option.Rel q (x.bind f) (x'.bind g) := by
  cases hx with
  | none => exact .none
  | some hab => exact hf _ _ rfl hab

theorem Option.Rel.map_eq {α β γ : Type} {r : α → β → Prop} {x : Option α} {x' : Option β}
    {f : α → γ} {g : β → γ} (hx : Option.Rel r x x') (hf : ∀ a b, r a b → f a = g b) :
    x.map f = x'.map g := by
  cases hx with
  | none => rfl
  | some hab => exact congrArg some (hf _ _ hab)

/-! ## Places that correspond -/

/-- Of the places that were there first, `m` on one side and `n` on the other, some correspond as
given. Later ones correspond in order. -/
def Paired (old : Nat → Nat → Prop) (m n a b : Nat) : Prop :=
  old a b ∨ ∃ i, a = m + i ∧ b = n + i

/-- Places correspond one to one, and there are no more than `m` and `n` of them. -/
structure OneToOne (old : Nat → Nat → Prop) (m n : Nat) : Prop where
  below : ∀ {a b}, old a b → a < m ∧ b < n
  eq_iff : ∀ {a b c d}, old a b → old c d → (a = c ↔ b = d)

namespace OneToOne

variable {old : Nat → Nat → Prop} {m n a b c d : Nat} (h : OneToOne old m n)

include h

theorem paired_eq_iff (hab : Paired old m n a b) (hcd : Paired old m n c d) : a = c ↔ b = d := by
  rcases hab with hab | ⟨i, rfl, rfl⟩
  · have := h.below hab
    rcases hcd with hcd | ⟨j, rfl, rfl⟩
    · exact h.eq_iff hab hcd
    · omega
  · rcases hcd with hcd | ⟨j, rfl, rfl⟩
    · have := h.below hcd
      omega
    · omega

/-- As long as both sides have grown alike, what is there on one side is there on the other. -/
theorem paired_lt_iff {k : Nat} (hab : Paired old m n a b) : a < m + k ↔ b < n + k := by
  rcases hab with hab | ⟨i, rfl, rfl⟩
  · have := h.below hab
    omega
  · omega

theorem paired_eq_size {k : Nat} (hab : Paired old m n a b) : a = m + k ↔ b = n + k :=
  h.paired_eq_iff hab (.inr ⟨k, rfl, rfl⟩)

end OneToOne

/-! ## Stores -/

/-- How a name of a scope looks from outside, if the scope has it. -/
def Store.interface? (store : Store) (scope : ScopeRef) (name : String) : Option Interface :=
  (store.findLocal? scope name).map fun ref => (store.symbol ref).interface

namespace Store

variable (u v : Store)

/-- The scopes of the programs correspond, and those made later. -/
def ScopesPaired : ScopeRef → ScopeRef → Prop :=
  Paired (fun a b => a = 0 ∧ b = 0) u.scopes.size v.scopes.size

/-- Symbols with the same name in the scopes of the programs correspond, and those made later. -/
def SymbolsPaired : SymbolRef → SymbolRef → Prop :=
  Paired (fun c d => ∃ name, u.findLocal? 0 name = some c ∧ v.findLocal? 0 name = some d)
    u.symbols.size v.symbols.size

/-- The scope of a program, at the first place, as it is between items. -/
structure Rooted (store : Store) : Prop where
  opened : 0 < store.scopes.size
  parent : (store.scope 0).parent = none
  descends : store.Descends
  bound : ∀ {name : String} {ref : SymbolRef}, store.findLocal? 0 name = some ref →
    ref < store.symbols.size ∧ (store.symbol ref).name = name

variable {u v}

theorem Rooted.scopes (hu : u.Rooted) (hv : v.Rooted) :
    OneToOne (fun a b => a = 0 ∧ b = 0) u.scopes.size v.scopes.size where
  below := by
    rintro a b ⟨rfl, rfl⟩
    exact ⟨hu.opened, hv.opened⟩
  eq_iff := by
    rintro a b c d ⟨rfl, rfl⟩ ⟨rfl, rfl⟩
    exact Iff.rfl

/-- A symbol is bound under its own name, so it corresponds to no more than one. -/
theorem Rooted.symbols (hu : u.Rooted) (hv : v.Rooted) :
    OneToOne (fun c d => ∃ name, u.findLocal? 0 name = some c ∧ v.findLocal? 0 name = some d)
      u.symbols.size v.symbols.size where
  below := by
    rintro c d ⟨name, hc, hd⟩
    exact ⟨(hu.bound hc).1, (hv.bound hd).1⟩
  eq_iff := by
    rintro a b c d ⟨name, ha, hb⟩ ⟨other, hc, hd⟩
    constructor
    · rintro rfl
      cases (hu.bound ha).2.symm.trans (hu.bound hc).2
      exact Option.some.inj (hb.symm.trans hd)
    · rintro rfl
      cases (hv.bound hb).2.symm.trans (hv.bound hd).2
      exact Option.some.inj (ha.symm.trans hc)

/-- The stores are alike in all that corresponds. -/
structure Matches (u v s t : Store) : Prop where
  scopes : ∃ k, s.scopes.size = u.scopes.size + k ∧ t.scopes.size = v.scopes.size + k
  symbols : ∃ k, s.symbols.size = u.symbols.size + k ∧ t.symbols.size = v.symbols.size + k
  name : ∀ {c d}, SymbolsPaired u v c d → (s.symbol c).name = (t.symbol d).name
  interface : ∀ {c d}, SymbolsPaired u v c d → (s.symbol c).interface = (t.symbol d).interface
  parent : ∀ {a b}, ScopesPaired u v a b →
    Option.Rel (ScopesPaired u v) (s.scope a).parent (t.scope b).parent
  bindings : ∀ {a b}, ScopesPaired u v a b → ∀ name,
    Option.Rel (SymbolsPaired u v) (s.findLocal? a name) (t.findLocal? b name)
  descends : s.Descends ∧ t.Descends

namespace Matches

variable {s t : Store} (h : Matches u v s t)

include h

/-- Searches go through scopes that correspond. -/
theorem find (name : String) : ∀ {a b : ScopeRef}, ScopesPaired u v a b →
    Option.Rel (SymbolsPaired u v) (s.find? a name) (t.find? b name) := by
  intro a
  induction a using Nat.strongRecOn with
  | _ a ih =>
    intro b hab
    rw [find?_eq_orElse h.descends.1, find?_eq_orElse h.descends.2]
    apply Option.Rel.or (h.bindings hab name)
    apply Option.Rel.bind (h.parent hab)
    intro p q hp hpq
    exact ih p (h.descends.1 a p hp) hpq

theorem interface? (name : String) : s.interface? 0 name = t.interface? 0 name :=
  Option.Rel.map_eq (h.bindings (.inl ⟨rfl, rfl⟩) name) fun _ _ => h.interface

/-! Changes that are made on both sides. -/

theorem addScope (hu : u.Rooted) (hv : v.Rooted) {id id' : Nat} {p q : Option ScopeRef}
    (hpq : Option.Rel (ScopesPaired u v) p q) (hp : ∀ a, p = some a → a < s.scopes.size)
    (hq : ∀ b, q = some b → b < t.scopes.size) :
    Matches u v (s.addScope { id, parent := p }) (t.addScope { id := id', parent := q }) := by
  obtain ⟨k, hs, ht⟩ := h.scopes
  -- the new scopes are paired with each other and with nothing else
  have hnew : ∀ {a b}, ScopesPaired u v a b → (a = s.scopes.size ↔ b = t.scopes.size) := by
    intro a b hab
    rw [hs, ht]
    exact (hu.scopes hv).paired_eq_size hab
  have hdescends : ∀ {store : Store} {id : Nat} {p : Option ScopeRef}, store.Descends →
      (∀ a, p = some a → a < store.scopes.size) →
        (store.addScope { id, parent := p }).Descends := by
    intro store id p hd hp ref parent hparent
    rw [scope_addScope] at hparent
    split at hparent
    · rename_i href
      rw [href]
      exact hp parent hparent
    · exact hd ref parent hparent
  refine ⟨⟨k + 1, ?_, ?_⟩, h.symbols, h.name, h.interface, ?_, ?_, hdescends h.descends.1 hp,
    hdescends h.descends.2 hq⟩
  · rw [size_addScope, hs]
    rfl
  · rw [size_addScope, ht]
    rfl
  · intro a b hab
    rw [scope_addScope, scope_addScope]
    by_cases ha : a = s.scopes.size
    · rw [if_pos ha, if_pos ((hnew hab).mp ha)]
      exact hpq
    · rw [if_neg ha, if_neg fun hb => ha ((hnew hab).mpr hb)]
      exact h.parent hab
  · intro a b hab name
    unfold findLocal?
    rw [scope_addScope, scope_addScope]
    by_cases ha : a = s.scopes.size
    · rw [if_pos ha, if_pos ((hnew hab).mp ha)]
      exact .none
    · rw [if_neg ha, if_neg fun hb => ha ((hnew hab).mpr hb)]
      exact h.bindings hab name

theorem addSymbol (hu : u.Rooted) (hv : v.Rooted) (symbol : Symbol) :
    Matches u v (s.addSymbol symbol) (t.addSymbol symbol) := by
  obtain ⟨k, hs, ht⟩ := h.symbols
  have hnew : ∀ {c d}, SymbolsPaired u v c d → (c = s.symbols.size ↔ d = t.symbols.size) := by
    intro c d hcd
    rw [hs, ht]
    exact (hu.symbols hv).paired_eq_size hcd
  -- names and interfaces are compared in the same way, so it is said once for any view
  have hsame : ∀ {c d} {α : Type} (f : Symbol → α), SymbolsPaired u v c d →
      f (s.symbol c) = f (t.symbol d) →
        f ((s.addSymbol symbol).symbol c) = f ((t.addSymbol symbol).symbol d) := by
    intro c d α f hcd hf
    rw [symbol_addSymbol, symbol_addSymbol]
    by_cases hc : c = s.symbols.size
    · rw [if_pos hc, if_pos ((hnew hcd).mp hc)]
    · rw [if_neg hc, if_neg fun hd => hc ((hnew hcd).mpr hd)]
      exact hf
  refine ⟨h.scopes, ⟨k + 1, ?_, ?_⟩, ?_, ?_, h.parent, h.bindings, h.descends⟩
  · rw [size_addSymbol, hs]
    rfl
  · rw [size_addSymbol, ht]
    rfl
  · intro c d hcd
    exact hsame Symbol.name hcd (h.name hcd)
  · intro c d hcd
    exact hsame Symbol.interface hcd (h.interface hcd)

theorem modifySymbol (hu : u.Rooted) (hv : v.Rooted) {c d : SymbolRef}
    (hcd : SymbolsPaired u v c d) {f : Symbol → Symbol} (hname : ∀ x, (f x).name = x.name)
    (hface : ∀ x y, x.interface = y.interface → (f x).interface = (f y).interface) :
    Matches u v (s.modifySymbol c f) (t.modifySymbol d f) := by
  obtain ⟨k, hs, ht⟩ := h.symbols
  have hthere : ∀ {a b}, SymbolsPaired u v a b →
      (c = a ∧ a < s.symbols.size ↔ d = b ∧ b < t.symbols.size) := by
    intro a b hab
    rw [hs, ht]
    exact and_congr ((hu.symbols hv).paired_eq_iff hcd hab) ((hu.symbols hv).paired_lt_iff hab)
  refine ⟨h.scopes, ⟨k, ?_, ?_⟩, ?_, ?_, h.parent, h.bindings, h.descends⟩
  · rw [size_modifySymbol, hs]
  · rw [size_modifySymbol, ht]
  · intro a b hab
    rw [symbol_modifySymbol_eq, symbol_modifySymbol_eq]
    by_cases ha : c = a ∧ a < s.symbols.size
    · rw [if_pos ha, if_pos ((hthere hab).mp ha), hname, hname]
      exact h.name hab
    · rw [if_neg ha, if_neg fun hb => ha ((hthere hab).mpr hb)]
      exact h.name hab
  · intro a b hab
    rw [symbol_modifySymbol_eq, symbol_modifySymbol_eq]
    by_cases ha : c = a ∧ a < s.symbols.size
    · rw [if_pos ha, if_pos ((hthere hab).mp ha)]
      exact hface _ _ (h.interface hab)
    · rw [if_neg ha, if_neg fun hb => ha ((hthere hab).mpr hb)]
      exact h.interface hab

theorem bindIn (hu : u.Rooted) (hv : v.Rooted) {a b : ScopeRef} (hab : ScopesPaired u v a b)
    {c d : SymbolRef} (hcd : SymbolsPaired u v c d) :
    Matches u v (s.bindIn a c) (t.bindIn b d) := by
  obtain ⟨k, hs, ht⟩ := h.scopes
  -- pairing is one to one, so the binding is made on both sides or on neither
  have hthere : ∀ {x y}, ScopesPaired u v x y →
      (a = x ∧ x < s.scopes.size ↔ b = y ∧ y < t.scopes.size) := by
    intro x y hxy
    rw [hs, ht]
    exact and_congr ((hu.scopes hv).paired_eq_iff hab hxy) ((hu.scopes hv).paired_lt_iff hxy)
  have hdescends : ∀ {store : Store} (ref : ScopeRef) (symbol : SymbolRef), store.Descends →
      (store.bindIn ref symbol).Descends := by
    intro store ref symbol hd r parent hparent
    rw [parent_bindIn] at hparent
    exact hd r parent hparent
  refine ⟨⟨k, ?_, ?_⟩, h.symbols, h.name, h.interface, ?_, ?_, hdescends a c h.descends.1,
    hdescends b d h.descends.2⟩
  · rw [size_bindIn, hs]
  · rw [size_bindIn, ht]
  · intro x y hxy
    rw [parent_bindIn, parent_bindIn]
    exact h.parent hxy
  · intro x y hxy name
    unfold findLocal?
    rw [scope_bindIn, scope_bindIn]
    by_cases hx : a = x ∧ x < s.scopes.size
    · rw [if_pos hx, if_pos ((hthere hxy).mp hx), Bindings.find?_insert, Bindings.find?_insert,
        h.name hcd]
      by_cases hname : name = (t.symbol d).name
      · rw [if_pos hname, if_pos hname]
        exact .some hcd
      · rw [if_neg hname, if_neg hname]
        exact h.bindings hxy name
    · rw [if_neg hx, if_neg fun hy => hx ((hthere hxy).mpr hy)]
      exact h.bindings hxy name

end Matches

/-- Where the names of the programs look the same, the stores are alike to begin with. -/
theorem Rooted.matches (hu : u.Rooted) (hv : v.Rooted)
    (hface : ∀ name, u.interface? 0 name = v.interface? 0 name) : Matches u v u v := by
  -- what will be made later is paired by its distance from the end, and until then both sides have
  -- the default there
  have hscope : ∀ (store : Store) (i : Nat),
      store.scope (store.scopes.size + i) = { id := 0, parent := none } := by
    intro store i
    simp [Store.scope, Array.getD_eq_getD_getElem?]
  have hsymbol : ∀ (store : Store) (i : Nat), store.symbol (store.symbols.size + i) = default := by
    intro store i
    exact store.symbol_of_size_le (Nat.le_add_right _ i)
  refine ⟨⟨0, rfl, rfl⟩, ⟨0, rfl, rfl⟩, ?_, ?_, ?_, ?_, hu.descends, hv.descends⟩
  · rintro c d (⟨name, hc, hd⟩ | ⟨i, rfl, rfl⟩)
    · rw [(hu.bound hc).2, (hv.bound hd).2]
    · rw [hsymbol, hsymbol]
  · rintro c d (⟨name, hc, hd⟩ | ⟨i, rfl, rfl⟩)
    · have hsame := hface name
      unfold Store.interface? at hsame
      rw [hc, hd] at hsame
      exact Option.some.inj hsame
    · rw [hsymbol, hsymbol]
  · rintro a b (⟨rfl, rfl⟩ | ⟨i, rfl, rfl⟩)
    · rw [hu.parent, hv.parent]
      exact .none
    · rw [hscope, hscope]
      exact .none
  · rintro a b (⟨rfl, rfl⟩ | ⟨i, rfl, rfl⟩) name
    · have hsame := hface name
      unfold Store.interface? at hsame
      cases hc : u.findLocal? 0 name with
      | none =>
        cases hd : v.findLocal? 0 name with
        | none => exact .none
        | some d =>
          rw [hc, hd] at hsame
          cases hsame
      | some c =>
        cases hd : v.findLocal? 0 name with
        | none =>
          rw [hc, hd] at hsame
          cases hsame
        | some d => exact .some (.inl ⟨name, hc, hd⟩)
    · unfold findLocal?
      rw [hscope, hscope]
      exact .none

end Store

/-! ## Annotations -/

/-- The cells of a territory are filled alike. -/
structure Annotations.Matches (T : Territory) (symbol : SymbolRef → SymbolRef → Prop)
    (notes notes' : Annotations) : Prop where
  type : ∀ e, T.types e → notes.typeOf e = notes'.typeOf e
  slot : ∀ n, T.symbols n → Option.Rel symbol (notes.symbols.get n) (notes'.symbols.get n)
  opened : ∀ n, T.opens n → (notes.scopes.get n).isSome = (notes'.scopes.get n).isSome
  signed : ∀ n, T.signs n → (notes.signatures.get n).isSome = (notes'.signatures.get n).isSome

namespace Annotations.Matches

variable {T : Territory} {symbol : SymbolRef → SymbolRef → Prop} {notes notes' : Annotations}
  (h : Annotations.Matches T symbol notes notes')

include h

theorem withScope (node : NodeId) (a b : ScopeRef) :
    Annotations.Matches T symbol (notes.withScope node a) (notes'.withScope node b) where
  type := h.type
  slot := h.slot
  opened := by
    intro n hn
    simp only [Annotations.withScope, Cells.get_put]
    split
    · rfl
    · exact h.opened n hn
  signed := h.signed

theorem withSymbol (node : NodeId) {c d : SymbolRef} (hcd : symbol c d) :
    Annotations.Matches T symbol (notes.withSymbol node c) (notes'.withSymbol node d) where
  type := h.type
  slot := by
    intro n hn
    simp only [Annotations.withSymbol, Cells.get_put]
    split
    · exact .some hcd
    · exact h.slot n hn
  opened := h.opened
  signed := h.signed

theorem withSignature (node : NodeId) (signature : Signature) :
    Annotations.Matches T symbol (notes.withSignature node signature)
      (notes'.withSignature node signature) where
  type := h.type
  slot := h.slot
  opened := h.opened
  signed := by
    intro n hn
    simp only [Annotations.withSignature, Cells.get_put]
    split
    · rfl
    · exact h.signed n hn

theorem withType (node : NodeId) (type : Ty) :
    Annotations.Matches T symbol (notes.withType node type) (notes'.withType node type) where
  type := by
    intro e he
    have hsame := h.type e he
    cases e with
    | literal id token given => exact hsame
    | _ =>
      simp only [Annotations.typeOf, Annotations.withType, Cells.get_put] at hsame ⊢
      rw [hsame]
  slot := h.slot
  opened := h.opened
  signed := h.signed

end Annotations.Matches

/-! ## States -/

/-- Two checks inside an item, which began in the states `u` and `v`. -/
structure Pass.Abreast (T : Territory) (u v s t : Pass) : Prop where
  header : s.header = t.header
  function : s.function = t.function
  root : s.stack.root = some 0 ∧ t.stack.root = some 0
  active : Option.Rel (Store.ScopesPaired u.store v.store) s.stack.active t.stack.active
  inside : (∀ a, s.stack.active = some a → a < s.store.scopes.size) ∧
    ∀ b, t.stack.active = some b → b < t.store.scopes.size
  store : Store.Matches u.store v.store s.store t.store
  notes : Annotations.Matches T (Store.SymbolsPaired u.store v.store) s.store.notes t.store.notes
  /-- What has been reported since is the same. -/
  reported : ∃ ds, s.diagnostics = u.diagnostics ++ ds ∧ t.diagnostics = v.diagnostics ++ ds

namespace Pass.Abreast

variable {T : Territory} {u v s t : Pass}

/-- Stores change on both sides, and all else stays. -/
theorem storing (h : Abreast T u v s t) {made made' : Store}
    (hstore : Store.Matches u.store v.store made made')
    (hnotes : Annotations.Matches T (Store.SymbolsPaired u.store v.store) made.notes made'.notes)
    (hsize : made.scopes.size = s.store.scopes.size)
    (hsize' : made'.scopes.size = t.store.scopes.size) :
    Abreast T u v (s.storing made) (t.storing made') where
  header := h.header
  function := h.function
  root := h.root
  active := h.active
  inside := by
    constructor
    · intro a ha
      change a < made.scopes.size
      rw [hsize]
      exact h.inside.1 a ha
    · intro b hb
      change b < made'.scopes.size
      rw [hsize']
      exact h.inside.2 b hb
  store := hstore
  notes := hnotes
  reported := h.reported

theorem annotating (h : Abreast T u v s t) {notes notes' : Annotations}
    (hnotes : Annotations.Matches T (Store.SymbolsPaired u.store v.store) notes notes') :
    Abreast T u v (s.annotating notes) (t.annotating notes') :=
  h.storing ⟨h.store.scopes, h.store.symbols, h.store.name, h.store.interface, h.store.parent,
    h.store.bindings, h.store.descends⟩ hnotes rfl rfl

theorem changing (h : Abreast T u v s t) (hu : u.store.Rooted) (hv : v.store.Rooted)
    {c d : SymbolRef} (hcd : Store.SymbolsPaired u.store v.store c d) {f : Symbol → Symbol}
    (hname : ∀ x, (f x).name = x.name)
    (hface : ∀ x y, x.interface = y.interface → (f x).interface = (f y).interface) :
    Abreast T u v (s.changing c f) (t.changing d f) :=
  h.storing (h.store.modifySymbol hu hv hcd hname hface) h.notes rfl rfl

theorem entering (h : Abreast T u v s t) (hu : u.store.Rooted) (hv : v.store.Rooted) :
    Abreast T u v s.entering t.entering where
  header := h.header
  function := h.function
  root := by
    simp only [Pass.entering, h.root]
    exact ⟨rfl, rfl⟩
  active := by
    obtain ⟨k, hs, ht⟩ := h.store.scopes
    exact .some (.inr ⟨k, hs, ht⟩)
  inside := by
    constructor
    · rintro a ⟨⟩
      simp only [Pass.entering, Store.size_addScope]
      exact Nat.lt_succ_self _
    · rintro b ⟨⟩
      simp only [Pass.entering, Store.size_addScope]
      exact Nat.lt_succ_self _
  store := h.store.addScope hu hv h.active h.inside.1 h.inside.2
  notes := h.notes
  reported := h.reported

theorem leaving (h : Abreast T u v s t) {a b : ScopeRef} (ha : s.stack.active = some a)
    (hb : t.stack.active = some b) (hab : Store.ScopesPaired u.store v.store a b) :
    Abreast T u v (s.leaving a) (t.leaving b) where
  header := h.header
  function := h.function
  root := h.root
  active := h.store.parent hab
  inside := by
    constructor
    · intro p hp
      exact Nat.lt_trans (h.store.descends.1 a p hp) (h.inside.1 a ha)
    · intro q hq
      exact Nat.lt_trans (h.store.descends.2 b q hq) (h.inside.2 b hb)
  store := h.store
  notes := h.notes
  reported := h.reported

theorem reporting (h : Abreast T u v s t) (ds : Diagnostics) :
    Abreast T u v (s.reporting ds) (t.reporting ds) where
  header := h.header
  function := h.function
  root := h.root
  active := h.active
  inside := h.inside
  store := h.store
  notes := h.notes
  reported := by
    obtain ⟨before, hs, ht⟩ := h.reported
    refine ⟨before ++ ds, ?_, ?_⟩
    · rw [← List.append_assoc, ← hs]
      rfl
    · rw [← List.append_assoc, ← ht]
      rfl

/-- **An item does not notice what is behind the names of the program.** -/
theorem accord (hu : u.store.Rooted) (hv : v.store.Rooted) :
    Accord T (Store.ScopesPaired u.store v.store) (Store.SymbolsPaired u.store v.store)
      (Abreast T u v) where
  header h := h.header
  function h := congrArg (Option.map Function.face) h.function
  active h := h.active
  type h := h.notes.type
  slot h := h.notes.slot
  opened h := h.notes.opened
  signed h := h.notes.signed
  name h _ _ hcd := h.store.name hcd
  interface h _ _ hcd := h.store.interface hcd
  find h _ _ hab name := h.store.find name hab
  logged h _ _ := ⟨h.header, h.function, h.root, h.active, h.inside, h.store, h.notes, h.reported⟩
  reporting h ds := h.reporting ds
  heading h _ := ⟨rfl, h.function, h.root, h.active, h.inside, h.store, h.notes, h.reported⟩
  inside h _ := ⟨h.header, rfl, h.root, h.active, h.inside, h.store, h.notes, h.reported⟩
  entering h := by
    obtain ⟨k, hs, ht⟩ := h.store.scopes
    exact ⟨.inr ⟨k, hs, ht⟩, h.entering hu hv⟩
  leaving h _ _ ha hb hab := h.leaving ha hb hab
  adding h added _ := by
    obtain ⟨k, hs, ht⟩ := h.store.symbols
    exact ⟨.inr ⟨k, hs, ht⟩, h.storing (h.store.addSymbol hu hv added) h.notes rfl rfl⟩
  binding {s t} h a b hab c d hcd :=
    h.storing (h.store.bindIn hu hv hab hcd) h.notes (Store.size_bindIn s.store a c)
      (Store.size_bindIn t.store b d)
  signing h _ _ hcd signature := by
    refine h.changing hu hv hcd (fun _ => rfl) ?_
    intro x y hxy
    change { x.interface with signature := some signature }
      = { y.interface with signature := some signature }
    rw [hxy]
  initing h _ _ hcd := h.changing hu hv hcd (fun _ => rfl) fun _ _ hxy => hxy
  counting _ _ _ h _ _ hcd := h.changing hu hv hcd (fun _ => rfl) fun _ _ hxy => hxy
  withScope h n _ a b _ := h.annotating (h.notes.withScope n a b)
  withSymbol h n _ _ _ hcd := h.annotating (h.notes.withSymbol n hcd)
  withSignature h n _ signature := h.annotating (h.notes.withSignature n signature)
  withType h e _ _ type := h.annotating (h.notes.withType e.id type)

end Pass.Abreast

end Semant
