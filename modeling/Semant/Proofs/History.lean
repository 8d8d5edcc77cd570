import Semant.Proofs.Operations
import Semant.Proofs.Reanalysis
import Semant.Proofs.ScopeTree

/-!
# What a store never takes back

A store only grows. Scopes and symbols are added, names are bound and cells of symbols are filled, and
nothing of this is undone by what happens later, be it a check, a dump, or scopes and symbols handled one
by one, and whether it goes through or fails (`history_append_only`).

Two steps could do harm. Binding could, since `Bindings.insert` lets an older binding of a name give way.
It is only made under a name that the search did not find, and the search begins in the scope itself
(`Store.findLocal?_of_free`). And counting a reference could, since a count is a word. By hand it is only
done where there is room (`Pass.Change.refs_le`), and a check counts references only to symbols that it
made itself (`Store.Step.refs_le`).
-/

set_option autoImplicit false

namespace Semant

/-- One thing that is done in a store. A pass of any kind may do it, with whatever stack of scopes and
whatever open signature it has. -/
inductive Store.Step : Store → Store → Prop
  | operate (s : Pass) (op : Operation) : op.Refers s.store → Step s.store (op.apply s).store
  | annotate (store : Store) (notes : Annotations) : Step store (store.annotate notes)
  | analyze (store : Store) (p : Program) : Step store (store.analyze p).2

/-- One thing after the other. -/
def Store.History : Store → Store → Prop := Relation.ReflTransGen Store.Step

/-! ## How symbols and stores may change -/

/-- A symbol stays what it was defined as. It may be given a value, and it may be signed once. -/
structure Symbol.Evolves (old new : Symbol) : Prop where
  definition : new.definition = old.definition
  type : new.type = old.type
  init : old.isInit = true → new.isInit = true
  signature : ∀ signature, old.signature = some signature → new.signature = some signature

namespace Symbol.Evolves

theorem refl (x : Symbol) : x.Evolves x := ⟨rfl, rfl, id, fun _ => id⟩

theorem trans {x y z : Symbol} (h : x.Evolves y) (h' : y.Evolves z) : x.Evolves z where
  definition := h'.definition.trans h.definition
  type := h'.type.trans h.type
  init := h'.init ∘ h.init
  signature sig hs := h'.signature sig (h.signature sig hs)

theorem signed {x : Symbol} (h : x.signature = none) (signature : Signature) :
    x.Evolves { x with signature := some signature } := by
  refine ⟨rfl, rfl, id, fun old hold => ?_⟩
  rw [h] at hold
  cases hold

theorem inited (x : Symbol) : x.Evolves { x with isInit := true } :=
  ⟨rfl, rfl, fun _ => rfl, fun _ => id⟩

theorem counted (x : Symbol) : x.Evolves { x with refs := x.refs + 1 } :=
  ⟨rfl, rfl, id, fun _ => id⟩

end Symbol.Evolves

/-- Scopes keep what they bind, and symbols what they are. -/
structure Store.Evolves (store later : Store) : Prop extends store.Keeps later where
  count : store.symbols.size ≤ later.symbols.size
  binding : ∀ scope name ref, store.findLocal? scope name = some ref →
    later.findLocal? scope name = some ref
  symbol : ∀ ref, ref < store.symbols.size → (store.symbol ref).Evolves (later.symbol ref)

/-- Cells of nodes do not matter. -/
theorem Store.Evolves.same {store later : Store} (hscopes : later.scopes = store.scopes)
    (hsymbols : later.symbols = store.symbols) : store.Evolves later := by
  have hscope : later.scope = store.scope := by
    funext ref
    rw [Store.scope, hscopes, ← Store.scope]
  have hsymbol : later.symbol = store.symbol := by
    funext ref
    rw [Store.symbol, hsymbols, ← Store.symbol]
  refine ⟨⟨Nat.le_of_eq (congrArg Array.size hscopes.symm), ?_, ?_⟩,
    Nat.le_of_eq (congrArg Array.size hsymbols.symm), ?_, ?_⟩
  · exact fun ref _ => congrArg Scope.id (congrFun hscope ref)
  · exact fun ref _ => congrArg Scope.parent (congrFun hscope ref)
  · intro scope name ref hold
    rwa [Store.findLocal?, hscope]
  · intro ref _
    rw [hsymbol]
    exact .refl _

theorem Store.Evolves.refl (store : Store) : store.Evolves store := .same rfl rfl

theorem Store.Evolves.trans {a b c : Store} (h : a.Evolves b) (h' : b.Evolves c) : a.Evolves c where
  toKeeps := h.toKeeps.trans h'.toKeeps
  count := Nat.le_trans h.count h'.count
  binding scope name ref hf := h'.binding scope name ref (h.binding scope name ref hf)
  symbol ref hr := (h.symbol ref hr).trans (h'.symbol ref (Nat.lt_of_lt_of_le hr h.count))

theorem Store.lt_of_findLocal? {store : Store} {scope : ScopeRef} {name : String} {ref : SymbolRef}
    (h : store.findLocal? scope name = some ref) : scope < store.scopes.size := by
  refine Nat.lt_of_not_le fun hle => ?_
  rw [findLocal?, Store.scope, Array.getD_eq_getD_getElem?, Array.getElem?_eq_none hle] at h
  cases h

/-- A name that the search does not find is not bound in the scope where it begins. -/
theorem Store.findLocal?_of_free {store : Store} {scope : ScopeRef} {name : String}
    (h : store.find? scope name = none) : store.findLocal? scope name = none := by
  refine List.findSome?_eq_none_iff.mp h scope ?_
  unfold chain chainUpTo
  split
  · exact List.mem_singleton.mpr rfl
  · exact List.mem_cons_self

namespace Pass

variable {room : Symbol → Prop}

/-! ## One change, and any number of them -/

theorem evolves_changing (s : Pass) (ref : SymbolRef) {f : Symbol → Symbol}
    (hf : (s.store.symbol ref).Evolves (f (s.store.symbol ref))) :
    s.store.Evolves (s.changing ref f).store := by
  refine ⟨⟨Nat.le_refl _, fun _ _ => rfl, fun _ _ => rfl⟩,
    Nat.le_of_eq (Store.size_modifySymbol _ _ _).symm, fun _ _ _ => id, ?_⟩
  intro r hr
  show (s.store.symbol r).Evolves ((s.store.modifySymbol ref f).symbol r)
  rw [Store.symbol_modifySymbol_eq]
  split
  · rename_i hsame
    rw [← hsame.1]
    exact hf
  · exact .refl _

theorem Change.evolves {s t : Pass} (h : Change room s t) : s.store.Evolves t.store := by
  have hkeeps := h.sameScopes.keeps
  cases h with
  | adding symbol =>
    refine ⟨hkeeps, ?_, fun _ _ _ => id, ?_⟩
    · exact Nat.le_of_lt (Nat.lt_of_lt_of_eq (Nat.lt_succ_self _) (Store.size_addSymbol _ _).symm)
    · intro r hr
      show (s.store.symbol r).Evolves ((s.store.addSymbol symbol).symbol r)
      rw [Store.symbol_addSymbol, if_neg (Nat.ne_of_lt hr)]
      exact .refl _
  | binding scope ref there free =>
    refine ⟨hkeeps, Nat.le_refl _, ?_, fun _ _ => .refl _⟩
    intro r name old hold
    show ((s.store.bindIn scope ref).findLocal? r name) = some old
    rw [Store.findLocal?_bindIn_eq, if_neg, hold]
    -- Were it the name that is bound now, it would not have been free.
    rintro ⟨⟨rfl, -⟩, rfl⟩
    rw [Store.findLocal?_of_free free] at hold
    cases hold
  | signing ref signature unsigned => exact evolves_changing s ref (.signed unsigned signature)
  | initing ref => exact evolves_changing s ref (.inited _)
  | counting ref fits => exact evolves_changing s ref (.counted _)
  | _ => exact .same rfl rfl

theorem Move.evolves {s t : Pass} (h : Move s t) : s.store.Evolves t.store := by
  have hkeeps := h.keeps
  cases h with
  | opening =>
    refine ⟨hkeeps, Nat.le_refl _, ?_, fun _ _ => .refl _⟩
    intro r name old hold
    exact (Store.findLocal?_addScope _ _ r name (Store.lt_of_findLocal? hold)).trans hold
  | _ => exact .same rfl rfl

theorem evolves_of_alters {s t : Pass} (h : Relation.ReflTransGen (Alters room) s t) :
    s.store.Evolves t.store := by
  induction h with
  | refl => exact .refl _
  | tail _ hlast ih => exact ih.trans (hlast.elim Change.evolves Move.evolves)

end Pass

/-! ## Counts

A count is a word, and behind the largest one it would begin again. -/

theorem Symbol.refs_lt_succ {x : Symbol} (h : x.HasRoom) : x.refs < x.refs + 1 := by
  have hlast : x.refs.toNat ≠ 4294967295 := by
    intro hlast
    exact h (decide_eq_true (UInt32.toNat_inj.mp hlast))
  have hword := x.refs.toNat_lt
  have hone : (1 : UInt32).toNat = 1 := rfl
  rw [UInt32.lt_iff_toNat_lt, UInt32.toNat_add]
  omega

/-- **A count at its end stays there.** Looking a name up overflows if and only if the name means a symbol
that fits and has no room, and then nothing is changed. -/
theorem Pass.lookup_overflow_iff {scope : ScopeRef} {name : Identifier} {use : Use} {s t : Pass} :
    (Pass.lookup scope name use).run s = .ok (.error .overflow) t ↔
      t = s ∧ ∃ ref, s.store.find? scope name.name = some ref ∧
        (s.store.symbol ref).cls = use.expects ∧ ¬ (s.store.symbol ref).HasRoom := by
  have hfull : ((s.store.find? scope name.name).any fun ref =>
      (s.store.symbol ref).cls = use.expects && (s.store.symbol ref).isFull) = true ↔
      ∃ ref, s.store.find? scope name.name = some ref ∧
        (s.store.symbol ref).cls = use.expects ∧ ¬ (s.store.symbol ref).HasRoom := by
    simp [Option.any_eq_true, Symbol.HasRoom]
  rw [← hfull, lookup, EStateM.run_bind, EStateM.run_get]
  dsimp only
  split
  · rename_i hany
    rw [and_iff_left hany]
    constructor
    · rintro ⟨⟩
      rfl
    · rintro rfl
      rfl
  · rename_i hany
    rw [iff_false_intro hany, and_false, iff_false]
    intro hrun
    obtain ⟨found, u, -, hreturn⟩ := bind_ok.mp hrun
    cases found with
    | ok ref => cases hreturn
    | error e => cases hreturn

namespace Pass

theorem Change.refs_le {s t : Pass} (h : Change Symbol.HasRoom s t) {ref : SymbolRef}
    (hr : ref < s.store.symbols.size) : (s.store.symbol ref).refs ≤ (t.store.symbol ref).refs := by
  have hsame : ∀ {t : Pass}, (t.store.symbol ref).refs = (s.store.symbol ref).refs →
      (s.store.symbol ref).refs ≤ (t.store.symbol ref).refs :=
    fun h => UInt32.le_of_eq h.symm
  cases h with
  | adding symbol =>
    refine hsame ?_
    show ((s.store.addSymbol symbol).symbol ref).refs = _
    rw [Store.symbol_addSymbol, if_neg (Nat.ne_of_lt hr)]
  | signing other signature unsigned => exact hsame (s.store.refs_modifySymbol other ref fun _ => rfl)
  | initing other => exact hsame (s.store.refs_modifySymbol other ref fun _ => rfl)
  | counting other fits =>
    show _ ≤ ((s.store.modifySymbol other _).symbol ref).refs
    rw [Store.symbol_modifySymbol_eq]
    split
    · rename_i hother
      rw [← hother.1]
      exact UInt32.le_of_lt (Symbol.refs_lt_succ fits)
    · exact UInt32.le_refl _
  | _ => exact UInt32.le_refl _

theorem Move.refs_eq {s t : Pass} (h : Move s t) (ref : SymbolRef) :
    (t.store.symbol ref).refs = (s.store.symbol ref).refs := by
  cases h with
  | _ => rfl

theorem refs_le_of_alters {s t : Pass} (h : Relation.ReflTransGen (Alters Symbol.HasRoom) s t)
    {ref : SymbolRef} (hr : ref < s.store.symbols.size) :
    (s.store.symbol ref).refs ≤ (t.store.symbol ref).refs := by
  induction h with
  | refl => exact UInt32.le_refl _
  | tail hbefore hlast ih =>
    refine UInt32.le_trans ih ?_
    rcases hlast with hchange | hmove
    · exact hchange.refs_le (Nat.lt_of_lt_of_le hr (evolves_of_alters hbefore).count)
    · exact UInt32.le_of_eq (hmove.refs_eq ref).symm

end Pass

/-! ## Histories -/

theorem Store.Step.evolves {store later : Store} (h : store.Step later) : store.Evolves later := by
  cases h with
  | operate s op href => exact Pass.evolves_of_alters (Operation.alters href)
  | annotate _ notes => exact .same rfl rfl
  | analyze _ p =>
    obtain ⟨s, hs, hstore, -⟩ := store.analyze_alters p
    rw [hstore]
    -- Before a check the cells of the program are cleared.
    have hclear : store.Evolves (store.checking p).store := .same rfl rfl
    exact hclear.trans (Pass.evolves_of_alters hs)

/-- A check counts references too, but only to symbols that were not there before it. -/
theorem Store.Step.refs_le {store later : Store} (h : store.Step later) {ref : SymbolRef}
    (hr : ref < store.symbols.size) : (store.symbol ref).refs ≤ (later.symbol ref).refs := by
  cases h with
  | operate s op href => exact Pass.refs_le_of_alters (Operation.alters href) hr
  | annotate _ notes => exact UInt32.le_refl _
  | analyze _ p =>
    rw [(store.extends_analyze p).symbol ref hr]
    exact UInt32.le_refl _

theorem Store.Proper.empty : ({} : Store).Proper :=
  ⟨fun _ => List.Pairwise.nil, fun _ _ _ hm => absurd hm List.not_mem_nil,
    fun _ _ _ hm => absurd hm List.not_mem_nil⟩

theorem Store.Step.proper {store later : Store} (h : store.Step later) (hp : store.Proper) :
    later.Proper := by
  cases h with
  | operate s op href => exact Pass.proper_of_alters (Operation.alters href) hp
  | annotate _ notes => exact ⟨hp.tidy, hp.bound, hp.named⟩
  | analyze _ p => exact hp.analyze p

theorem Store.History.evolves {store later : Store} (h : store.History later) :
    store.Evolves later := by
  induction h with
  | refl => exact .refl store
  | tail _ hlast ih => exact ih.trans hlast.evolves

theorem Store.History.refs_le {store later : Store} (h : store.History later) {ref : SymbolRef}
    (hr : ref < store.symbols.size) : (store.symbol ref).refs ≤ (later.symbol ref).refs := by
  induction h with
  | refl => exact UInt32.le_refl _
  | tail hbefore hlast ih =>
    exact UInt32.le_trans ih (hlast.refs_le (Nat.lt_of_lt_of_le hr (evolves hbefore).count))

theorem Store.History.proper {store later : Store} (h : store.History later) (hp : store.Proper) :
    later.Proper := by
  induction h with
  | refl => exact hp
  | tail _ hlast ih => exact hlast.proper ih

/-- **Stores are append-only.** Look at a store that came about in any way, and at the same store after
anything else has been done in it, with or without success.

* A scope that bound a name to a symbol binds it to the same symbol still, and whatever is bound is
  bound under its own name.
* Scopes have kept their numbers and lie where they lay.
* Symbols have kept their class, name, type, position and flags. Those with a value still have it, none
  has lost references, and a signature is the one it was. -/
theorem history_append_only {store later : Store} (hstore : ({} : Store).History store)
    (hlater : store.History later) :
    (∀ scope name ref, store.findLocal? scope name = some ref →
      later.findLocal? scope name = some ref) ∧
    (∀ scope name ref, later.findLocal? scope name = some ref →
      ref < later.symbols.size ∧ (later.symbol ref).name = name) ∧
    (∀ scope, scope < store.scopes.size → scope < later.scopes.size ∧
      (later.scope scope).id = (store.scope scope).id ∧
      (later.scope scope).parent = (store.scope scope).parent) ∧
    ∀ ref, ref < store.symbols.size → ref < later.symbols.size ∧
      (later.symbol ref).cls = (store.symbol ref).cls ∧
      (later.symbol ref).name = (store.symbol ref).name ∧
      (later.symbol ref).type = (store.symbol ref).type ∧
      (later.symbol ref).position = (store.symbol ref).position ∧
      (later.symbol ref).isConst = (store.symbol ref).isConst ∧
      (later.symbol ref).isIterator = (store.symbol ref).isIterator ∧
      ((store.symbol ref).isInit = true → (later.symbol ref).isInit = true) ∧
      (store.symbol ref).refs ≤ (later.symbol ref).refs ∧
      ∀ signature, (store.symbol ref).signature = some signature →
        (later.symbol ref).signature = some signature := by
  have hevolves := hlater.evolves
  have hproper := hlater.proper (hstore.proper .empty)
  refine ⟨hevolves.binding, ?_, ?_, ?_⟩
  · intro scope name ref hfind
    have hm := (hproper.tidy scope).mem_iff.mpr hfind
    exact ⟨hproper.bound scope name ref hm, hproper.named scope name ref hm⟩
  · intro scope hs
    exact ⟨Nat.lt_of_lt_of_le hs hevolves.size, hevolves.id scope hs, hevolves.parent scope hs⟩
  · intro ref hr
    have hsymbol := hevolves.symbol ref hr
    -- class, name, position and flags are read off the definition, which never changes
    have hdef := hsymbol.definition
    refine ⟨Nat.lt_of_lt_of_le hr hevolves.count, ?_, ?_, hsymbol.type, ?_, ?_, ?_, hsymbol.init,
      hlater.refs_le hr, hsymbol.signature⟩
    · rw [Symbol.cls, hdef, ← Symbol.cls]
    · rw [Symbol.name_eq, hdef, ← Symbol.name_eq]
    · rw [Symbol.position, Symbol.identifier, hdef, ← Symbol.identifier, ← Symbol.position]
    · rw [Symbol.isConst, hdef, ← Symbol.isConst]
    · rw [Symbol.isIterator, hdef, ← Symbol.isIterator]

/-- Between two analyses of one program somebody tries to bind the symbol of the body's declaration in the
scope of the loop, which binds that name already. -/
theorem nesting_append_only :
    ∃ first second : Store, ({} : Store).History first ∧ first.History second ∧
      second = (((Operation.bind 3 4).apply { store := first }).store.analyze nesting).2 ∧
      first.findLocal? 3 "b" = some 3 ∧ second.findLocal? 3 "b" = some 3 ∧
      (second.scope 3).parent = some 2 := by
  have hfacts : 4 < (({} : Store).analyze nesting).2.symbols.size ∧
      3 < (({} : Store).analyze nesting).2.scopes.size ∧
      (({} : Store).analyze nesting).2.findLocal? 3 "b" = some 3 ∧
      ((({} : Store).analyze nesting).2.scope 3).parent = some 2 := by
    decide +kernel
  have hfirst : ({} : Store).History (({} : Store).analyze nesting).2 := .single (.analyze _ _)
  generalize (({} : Store).analyze nesting).2 = first at hfacts hfirst
  obtain ⟨hthere, hscope, hbound, hparent⟩ := hfacts
  have hbind : first.Step ((Operation.bind 3 4).apply { store := first }).store :=
    .operate { store := first } (.bind 3 4) hthere
  have hsecond : first.History _ := .tail (.single hbind) (.analyze _ nesting)
  obtain ⟨hkept, -, hscopes, -⟩ := history_append_only hfirst hsecond
  exact ⟨first, _, hfirst, hsecond, rfl, hbound, hkept 3 "b" 3 hbound,
    (hscopes 3 hscope).2.2.trans hparent⟩

end Semant
