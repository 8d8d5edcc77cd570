import Semant.Proofs.Placement
import Semant.Proofs.Scoping

/-!
# Names are only compared

A check compares names with each other and hands them on; it never looks into them. So if all names of a
program are replaced, different ones by different ones, the check does the same as before, with the new
names in the place of the old ones (`analyze_rename`). It makes no difference that new names come in
another order, that one of them is spelled like a type or a keyword, or that a node occurs twice and
the check stops there.

That the two checks stay in step is the matter of `Concord`. What is left to show is that a store and the
one with other names look alike, and keep doing so. Only binding a name needs different names to stay
different.
-/

set_option autoImplicit false

namespace Semant

/-- A store and the one with other names. Places of scopes and symbols are the same in both. -/
structure Store.Renames (f : String → String) (store other : Store) : Prop where
  size : other.scopes.size = store.scopes.size
  id : ∀ ref, (other.scope ref).id = (store.scope ref).id
  parent : ∀ ref, (other.scope ref).parent = (store.scope ref).parent
  binds : ∀ ref name symbol, other.findLocal? ref name = some symbol ↔
    ∃ n, f n = name ∧ store.findLocal? ref n = some symbol
  count : other.symbols.size = store.symbols.size
  symbol : ∀ ref, ref < store.symbols.size → other.symbol ref = (store.symbol ref).rename f
  types : ∀ e, store.notes.typeOf e = other.notes.typeOf (e.rename f)
  scopes : other.notes.scopes = store.notes.scopes
  symbols : other.notes.symbols = store.notes.symbols
  signatures : ∀ node,
    other.notes.signatures.get node = (store.notes.signatures.get node).map (Signature.rename f)
  -- What is bound or recorded is there.
  bound : ∀ ref name symbol, store.findLocal? ref name = some symbol → symbol < store.symbols.size
  recorded : ∀ node symbol, store.notes.symbols.get node = some symbol → symbol < store.symbols.size

namespace Store.Renames

variable {f : String → String} {store other : Store}

theorem findLocal? (h : store.Renames f other) (hf : Function.Injective f) (ref : ScopeRef)
    (name : String) : other.findLocal? ref (f name) = store.findLocal? ref name := by
  refine Option.ext fun symbol => (h.binds ref (f name) symbol).trans ⟨?_, fun hs => ⟨name, rfl, hs⟩⟩
  rintro ⟨n, hn, hs⟩
  cases hf hn
  exact hs

theorem find? (h : store.Renames f other) (hf : Function.Injective f) (ref : ScopeRef)
    (name : String) : other.find? ref (f name) = store.find? ref name := by
  have hchain : ∀ fuel r, other.chainUpTo fuel r = store.chainUpTo fuel r := by
    intro fuel
    induction fuel with
    | zero => intro r; rfl
    | succ fuel ih => intro r; simp only [chainUpTo, h.parent, ih]
  simp only [Store.find?, chain, hchain, h.findLocal? hf]

theorem lt_of_find? (h : store.Renames f other) {ref : ScopeRef} {name : String} {symbol : SymbolRef}
    (hs : store.find? ref name = some symbol) : symbol < store.symbols.size := by
  obtain ⟨r, -, hr⟩ := List.exists_of_findSome?_eq_some hs
  exact h.bound r name symbol hr

/-! ## Changes -/

theorem addScope (h : store.Renames f other) (scope : Scope) (hs : scope.bindings = []) :
    (store.addScope scope).Renames f (other.addScope scope) where
  size := by rw [size_addScope, size_addScope, h.size]
  id ref := by
    rw [scope_addScope, scope_addScope, h.size]
    split
    · rfl
    · exact h.id ref
  parent ref := by
    rw [scope_addScope, scope_addScope, h.size]
    split
    · rfl
    · exact h.parent ref
  binds := by
    intro ref name symbol
    simp only [Store.findLocal?, scope_addScope, h.size]
    split
    · simp [hs, Bindings.find?]
    · exact h.binds ref name symbol
  count := h.count
  symbol := h.symbol
  types := h.types
  scopes := h.scopes
  symbols := h.symbols
  signatures := h.signatures
  bound := by
    intro ref name symbol hfind
    simp only [Store.findLocal?, scope_addScope] at hfind
    split at hfind
    · simp [hs, Bindings.find?] at hfind
    · exact h.bound ref name symbol hfind
  recorded := h.recorded

theorem addSymbol (h : store.Renames f other) (added : Symbol) :
    (store.addSymbol added).Renames f (other.addSymbol (added.rename f)) := by
  have hlt : ∀ {ref}, ref < store.symbols.size → ref < (store.addSymbol added).symbols.size := by
    intro ref hr
    rw [size_addSymbol]
    exact Nat.lt_succ_of_lt hr
  exact
    { size := h.size
      id := h.id
      parent := h.parent
      binds := h.binds
      count := by rw [size_addSymbol, size_addSymbol, h.count]
      symbol := by
        intro ref hr
        rw [size_addSymbol] at hr
        rw [symbol_addSymbol, symbol_addSymbol, h.count]
        split
        · rfl
        · rename_i hne
          exact h.symbol ref (Nat.lt_of_le_of_ne (Nat.le_of_lt_succ hr) hne)
      types := h.types
      scopes := h.scopes
      symbols := h.symbols
      signatures := h.signatures
      bound := fun ref name symbol hs => hlt (h.bound ref name symbol hs)
      recorded := fun node symbol hs => hlt (h.recorded node symbol hs) }

/-- Here different names have to stay different. -/
theorem bindIn (h : store.Renames f other) (hf : Function.Injective f) (scope : ScopeRef)
    {c : SymbolRef} (hc : c < store.symbols.size) :
    (store.bindIn scope c).Renames f (other.bindIn scope c) := by
  have hname : (other.symbol c).name = f (store.symbol c).name := by
    rw [h.symbol c hc, Symbol.name_rename]
  exact
    { size := by rw [size_bindIn, size_bindIn, h.size]
      id := fun ref => by rw [id_bindIn, id_bindIn, h.id]
      parent := fun ref => by rw [parent_bindIn, parent_bindIn, h.parent]
      binds := by
        intro ref name symbol
        simp only [findLocal?_bindIn_eq, h.size, hname]
        by_cases hthere : scope = ref ∧ ref < store.scopes.size
        · -- the name bound now is met by its own preimage only, as `f` is injective
          by_cases hsame : name = f (store.symbol c).name
          · subst hsame
            simp [hthere, hf.eq_iff]
          · have hother : ∀ n, f n = name → n ≠ (store.symbol c).name := by
              rintro n hn rfl
              exact hsame hn.symm
            rw [if_neg (fun hand => hsame hand.2), h.binds]
            refine exists_congr fun n => and_congr_right fun hn => ?_
            rw [if_neg (fun hand => hother n hn hand.2)]
        · simp only [hthere, false_and, if_false]
          exact h.binds ref name symbol
      count := h.count
      symbol := h.symbol
      types := h.types
      scopes := h.scopes
      symbols := h.symbols
      signatures := h.signatures
      bound := by
        intro ref name symbol hs
        rw [findLocal?_bindIn_eq] at hs
        split at hs
        · cases hs
          exact hc
        · exact h.bound ref name symbol hs
      recorded := h.recorded }

theorem modifySymbol (h : store.Renames f other) (c : SymbolRef) {g g' : Symbol → Symbol}
    (hg : ∀ x, (g x).rename f = g' (x.rename f)) :
    (store.modifySymbol c g).Renames f (other.modifySymbol c g') where
  size := h.size
  id := h.id
  parent := h.parent
  binds := h.binds
  count := by rw [size_modifySymbol, size_modifySymbol, h.count]
  symbol := by
    intro ref hr
    rw [size_modifySymbol] at hr
    rw [symbol_modifySymbol_eq, symbol_modifySymbol_eq, h.count, h.symbol ref hr]
    split
    · exact (hg _).symm
    · rfl
  types := h.types
  scopes := h.scopes
  symbols := h.symbols
  signatures := h.signatures
  bound := by
    intro ref name symbol hs
    rw [size_modifySymbol]
    exact h.bound ref name symbol hs
  recorded := by
    intro node symbol hs
    rw [size_modifySymbol]
    exact h.recorded node symbol hs

/-! Cells of nodes. -/

theorem annotate (h : store.Renames f other) {notes notes' : Annotations}
    (htypes : ∀ e, notes.typeOf e = notes'.typeOf (e.rename f)) (hscopes : notes'.scopes = notes.scopes)
    (hsymbols : notes'.symbols = notes.symbols)
    (hsignatures : ∀ node,
      notes'.signatures.get node = (notes.signatures.get node).map (Signature.rename f))
    (hrecorded : ∀ node symbol, notes.symbols.get node = some symbol → symbol < store.symbols.size) :
    (store.annotate notes).Renames f (other.annotate notes') :=
  ⟨h.size, h.id, h.parent, h.binds, h.count, h.symbol, htypes, hscopes, hsymbols, hsignatures,
    h.bound, hrecorded⟩

theorem withScope (h : store.Renames f other) (node : NodeId) (scope : ScopeRef) :
    (store.annotate (store.notes.withScope node scope)).Renames f
      (other.annotate (other.notes.withScope node scope)) := by
  refine h.annotate h.types ?_ h.symbols h.signatures h.recorded
  rw [Annotations.withScope, Annotations.withScope, h.scopes]

theorem withSymbol (h : store.Renames f other) (node : NodeId) {c : SymbolRef}
    (hc : c < store.symbols.size) :
    (store.annotate (store.notes.withSymbol node c)).Renames f
      (other.annotate (other.notes.withSymbol node c)) := by
  refine h.annotate h.types h.scopes ?_ h.signatures ?_
  · rw [Annotations.withSymbol, Annotations.withSymbol, h.symbols]
  · intro n symbol hs
    rw [Annotations.withSymbol, Cells.get_put] at hs
    split at hs
    · cases hs
      exact hc
    · exact h.recorded n symbol hs

theorem withSignature (h : store.Renames f other) (node : NodeId) (signature : Signature) :
    (store.annotate (store.notes.withSignature node signature)).Renames f
      (other.annotate (other.notes.withSignature node (signature.rename f))) := by
  refine h.annotate h.types h.scopes h.symbols ?_ h.recorded
  intro n
  rw [Annotations.withSignature, Annotations.withSignature, Cells.get_put, Cells.get_put]
  split
  · rfl
  · exact h.signatures n

theorem withType (h : store.Renames f other) (node : NodeId) (type : Ty) :
    (store.annotate (store.notes.withType node type)).Renames f
      (other.annotate (other.notes.withType node type)) := by
  refine h.annotate ?_ h.scopes h.symbols h.signatures h.recorded
  intro e
  have hold := h.types e
  cases e with
  | literal id token given => exact hold
  | _ =>
    simp only [Annotations.typeOf, Expr.rename, Expr.id, Annotations.withType, Cells.get_put] at hold ⊢
    rw [hold]

end Store.Renames

/-! ## States -/

/-- A state and the one with other names. At least `n` symbols are there. -/
structure Pass.Renames (f : String → String) (n : Nat) (s t : Pass) : Prop where
  store : s.store.Renames f t.store
  stack : t.stack = s.stack
  header : t.header = s.header.map (Signature.rename f)
  function : t.function = s.function.map (Function.rename f)
  diagnostics : t.diagnostics = s.diagnostics.map (Diagnostic.rename f)
  known : n ≤ s.store.symbols.size

theorem Pass.Renames.changing {f : String → String} {n : Nat} {s t : Pass} (h : Pass.Renames f n s t)
    (c : SymbolRef) {g g' : Symbol → Symbol} (hg : ∀ x, (g x).rename f = g' (x.rename f)) :
    Pass.Renames f n (s.changing c g) (t.changing c g') := by
  refine ⟨h.store.modifySymbol c hg, h.stack, h.header, h.function, h.diagnostics, ?_⟩
  exact Nat.le_trans h.known (Nat.le_of_eq (Store.size_modifySymbol _ _ _).symm)

theorem Pass.Renames.start (f : String → String) (literals : Cells Ty) :
    Pass.Renames f 0 (Pass.start literals) (Pass.start literals) := by
  have hfind : ∀ ref name symbol, (Pass.start literals).store.findLocal? ref name ≠ some symbol := by
    intro ref name symbol hs
    simp [Pass.start, Store.findLocal?, Store.scope, Bindings.find?] at hs
  refine ⟨⟨rfl, fun _ => rfl, fun _ => rfl, ?_, rfl, ?_, ?_, rfl, rfl, ?_, ?_, ?_⟩, rfl, rfl, rfl, rfl,
    Nat.zero_le _⟩
  · intro ref name symbol
    simp [hfind]
  · intro ref hr
    exact absurd hr (Nat.not_lt_zero ref)
  · exact fun e => (Annotations.typeOf_rename f _ e).symm
  · intro node
    simp [Pass.start]
  · intro ref name symbol hs
    exact absurd hs (hfind ref name symbol)
  · intro node symbol hs
    simp [Pass.start] at hs

/-- **A check does not look into names.** -/
theorem Pass.Renames.concord {f : String → String} (hf : Function.Injective f) (T : Territory) :
    Concord f T Eq (fun n c d => c = d ∧ c < n) (Pass.Renames f) where
  fewer hle _ _ h := ⟨h.store, h.stack, h.header, h.function, h.diagnostics, Nat.le_trans hle h.known⟩
  header h := h.header
  function h := by rw [h.function, Option.map_map]; rfl
  active h := by
    rw [h.stack]
    exact Option.Rel.refl_eq _
  type h e _ := h.store.types e
  slot := by
    intro n s t h node _
    refine ⟨s.store.symbols.size, h.known, { h with known := Nat.le_refl _ }, ?_⟩
    rw [h.store.symbols]
    cases hs : s.store.notes.symbols.get node with
    | none => exact .none
    -- what a cell holds lies below the number of symbols, whatever bound was known before
    | some symbol => exact .some ⟨rfl, h.store.recorded node symbol hs⟩
  opened h node _ := by rw [h.store.scopes]
  signed h node _ := by rw [h.store.signatures, Option.isSome_map]
  name := by
    rintro n s t h a _ ⟨rfl, ha⟩
    rw [h.store.symbol a (Nat.lt_of_lt_of_le ha h.known), Symbol.name_rename]
  interface := by
    rintro n s t h a _ ⟨rfl, ha⟩
    rw [h.store.symbol a (Nat.lt_of_lt_of_le ha h.known), Symbol.interface_rename]
  find := by
    rintro n s t h a _ rfl name
    refine ⟨s.store.symbols.size, h.known, { h with known := Nat.le_refl _ }, ?_⟩
    rw [h.store.find? hf]
    cases hs : s.store.find? a name with
    | none => exact .none
    | some symbol => exact .some ⟨rfl, h.store.lt_of_find? hs⟩
  logged h _ _ := ⟨h.store, h.stack, h.header, h.function, h.diagnostics, h.known⟩
  reporting h ds := by
    refine ⟨h.store, h.stack, h.header, h.function, ?_, h.known⟩
    simp only [Pass.reporting, h.diagnostics, List.map_append]
  heading h header := ⟨h.store, h.stack, rfl, h.function, h.diagnostics, h.known⟩
  inside h function := ⟨h.store, h.stack, h.header, rfl, h.diagnostics, h.known⟩
  entering := by
    intro n s t h
    refine ⟨h.store.size.symm, ?_, ?_, h.header, h.function, h.diagnostics, h.known⟩
    · simp only [Pass.entering, h.stack]
      exact h.store.addScope _ rfl
    · simp only [Pass.entering, h.stack, h.store.size]
  leaving := by
    rintro n s t h a _ - - rfl
    refine ⟨h.store, ?_, h.header, h.function, h.diagnostics, h.known⟩
    simp only [Pass.leaving, h.stack, h.store.parent]
  adding := by
    intro n s t h added _
    -- the bound grows with the symbol, so that the new one is known
    refine ⟨s.store.symbols.size + 1, Nat.le_succ_of_le h.known, ⟨h.store.count.symm, Nat.lt_succ_self _⟩,
      h.store.addSymbol added, h.stack, h.header, h.function, h.diagnostics, ?_⟩
    exact Nat.le_of_eq (Store.size_addSymbol _ _).symm
  binding := by
    rintro n s t h a _ rfl c _ ⟨rfl, hc⟩
    exact ⟨h.store.bindIn hf a (Nat.lt_of_lt_of_le hc h.known), h.stack, h.header, h.function,
      h.diagnostics, h.known⟩
  signing := by
    rintro n s t h c _ ⟨rfl, -⟩ signature
    exact h.changing c fun _ => rfl
  initing := by
    rintro n s t h c _ ⟨rfl, -⟩
    exact h.changing c fun _ => rfl
  counting := by
    rintro - n s t h c _ ⟨rfl, -⟩
    exact h.changing c fun _ => rfl
  withScope := by
    rintro n s t h node - a _ rfl
    exact ⟨h.store.withScope node a, h.stack, h.header, h.function, h.diagnostics, h.known⟩
  withSymbol := by
    rintro n s t h node - c _ ⟨rfl, hc⟩
    exact ⟨h.store.withSymbol node (Nat.lt_of_lt_of_le hc h.known), h.stack, h.header, h.function,
      h.diagnostics, h.known⟩
  withSignature h node _ signature :=
    ⟨h.store.withSignature node signature, h.stack, h.header, h.function, h.diagnostics, h.known⟩
  withType h e _ _ type :=
    ⟨h.store.withType e.id type, h.stack, h.header, h.function, h.diagnostics, h.known⟩

/-! ## Analyses -/

theorem Annotations.forget_rename (f : String → String) (notes : Annotations) (event : Event) :
    notes.forget (event.rename f) = notes.forget event := by
  cases event with
  | enterExpr e => cases e <;> rfl
  | enterBlock b => cases b; rfl
  | enterVariable e name => simp [Event.rename, forget]
  | enterCall e callee args => simp [Event.rename, forget]
  | _ => rfl

theorem Annotations.clear_rename (f : String → String) (notes : Annotations) (p : Program) :
    notes.clear (p.rename f) = notes.clear p := by
  rw [clear_eq_foldl, clear_eq_foldl, Program.events_rename, List.foldl_map]
  simp only [forget_rename]

/-- What came to a store by an analysis of a program, and what came to it by one of the program with
other names. -/
structure Store.AlikeSince (store : Store) (f : String → String) (p : Program) (after other : Store) :
    Prop where
  /-- The same scopes, -/
  size : other.scopes.size = after.scopes.size
  id : ∀ ref, (other.scope ref).id = (after.scope ref).id
  parent : ∀ ref, (other.scope ref).parent = (after.scope ref).parent
  /-- which bind the same symbols under other names. -/
  binds : ∀ ref, store.scopes.size ≤ ref → ∀ name symbol,
    other.findLocal? ref name = some symbol ↔ ∃ n, f n = name ∧ after.findLocal? ref n = some symbol
  /-- The same symbols, but for their names and those in their signatures. -/
  count : other.symbols.size = after.symbols.size
  symbol : ∀ ref, store.symbols.size ≤ ref → ref < after.symbols.size →
    other.symbol ref = (after.symbol ref).rename f ∧
      (other.symbol ref).isConst = (after.symbol ref).isConst ∧
      (other.symbol ref).isIterator = (after.symbol ref).isIterator
  /-- The same findings about nodes. -/
  types : ∀ e, other.notes.typeOf (e.rename f) = after.notes.typeOf e
  scopes : other.notes.scopes = after.notes.scopes
  symbols : other.notes.symbols = after.notes.symbols
  signatures : ∀ g, .enterFunction g ∈ p.events →
    other.notes.signatures.get g.id = (after.notes.signatures.get g.id).map (Signature.rename f)

/-- Every place is one from before or one behind those. -/
theorem place_cases {P : Nat → Prop} (base : Nat) (hbelow : ∀ ref, ref < base → P ref)
    (hbehind : ∀ i, P (base + i)) (ref : Nat) : P ref := by
  rcases Nat.lt_or_ge ref base with hlt | hge
  · exact hbelow ref hlt
  · rw [← Nat.add_sub_cancel' hge]
    exact hbehind _

theorem Store.Renames.link {f : String → String} {made other : Store} (h : made.Renames f other)
    (base : Store) {p : Program}
    (hbase : ∀ g, .enterFunction g ∈ p.events → base.notes.signatures.get g.id = none) :
    base.AlikeSince f p (base.link made) (base.link other) where
  size := by rw [size_link, size_link, h.size]
  id := by
    -- below the base nothing differs, and above it the two are what was made
    refine place_cases base.scopes.size ?_ ?_
    · intro ref hr
      rw [scope_link_below _ _ hr, scope_link_below _ _ hr]
    · intro i
      rw [scope_link, scope_link]
      exact h.id i
  parent := by
    refine place_cases base.scopes.size ?_ ?_
    · intro ref hr
      rw [scope_link_below _ _ hr, scope_link_below _ _ hr]
    · intro i
      rw [scope_link, scope_link]
      simp only [Scope.moved, h.parent i]
  binds := by
    intro ref hr name symbol
    obtain ⟨i, rfl⟩ := Nat.exists_eq_add_of_le hr
    simp only [findLocal?_link, Option.map_eq_some_iff, h.binds]
    constructor
    · rintro ⟨place, ⟨n, hn, hplace⟩, rfl⟩
      exact ⟨n, hn, place, hplace, rfl⟩
    · rintro ⟨n, hn, place, hplace, rfl⟩
      exact ⟨place, ⟨n, hn, hplace⟩, rfl⟩
  count := by simp only [Store.link, Array.size_append, h.count]
  symbol := by
    intro ref hr hlt
    obtain ⟨i, rfl⟩ := Nat.exists_eq_add_of_le hr
    have hi : i < made.symbols.size := by
      simp only [Store.link, Array.size_append] at hlt
      exact Nat.lt_of_add_lt_add_left hlt
    rw [symbol_link, symbol_link, h.symbol i hi]
    exact ⟨rfl, Symbol.isConst_rename f _, Symbol.isIterator_rename f _⟩
  types := by
    intro e
    have hmade := h.types e
    cases e with
    | literal id token given => rfl
    | _ =>
      simp only [Annotations.typeOf, Expr.rename, Expr.id, types_link] at hmade ⊢
      rw [hmade]
  scopes := by simp only [Store.link, h.scopes]
  symbols := by simp only [Store.link, h.symbols]
  signatures := by
    intro g hg
    rw [signatures_link, signatures_link, hbase g hg, h.signatures]
    simp only [Option.or_none]

theorem Store.Renames.grown {f : String → String} {made other : Store} (h : made.Renames f other)
    (store : Store) (p : Program) :
    store.AlikeSince f p (store.grown p made) (store.grown (p.rename f) other) := by
  rw [Store.grown, Store.grown, Annotations.clear_rename]
  have halike := h.link (store.annotate (store.notes.clear p)) fun g hg =>
    Annotations.signatures_clear hg store.notes
  exact ⟨halike.size, halike.id, halike.parent, halike.binds, halike.count, halike.symbol,
    halike.types, halike.scopes, halike.symbols, halike.signatures⟩

/-- **Analysis is equivariant.** Replace all names of a program, different ones by different ones. In
the same store, both programs can be analysed or neither can. In the first case the diagnostics are the
same but for the names in them: they have the same severities, codes and places, in the same order. In
the second case the errors are. Either way the same scopes and symbols are made, under other
names, and the same is found out about each node. -/
theorem analyze_rename {f : String → String} (hf : Function.Injective f) (store : Store)
    (p : Program) :
    ((∃ a, (store.analyze p).1 = .ok a) ↔ ∃ a', (store.analyze (p.rename f)).1 = .ok a') ∧
    (∀ a a', (store.analyze p).1 = .ok a → (store.analyze (p.rename f)).1 = .ok a' →
      a'.diagnostics.map (fun d => (d.severity, d.code, d.position))
          = a.diagnostics.map (fun d => (d.severity, d.code, d.position)) ∧
        a'.diagnostics = a.diagnostics.map (Diagnostic.rename f) ∧ a'.stack = a.stack) ∧
    (∀ e e', (store.analyze p).1 = .error e → (store.analyze (p.rename f)).1 = .error e' →
      e.Renames f e') ∧
    store.AlikeSince f p (store.analyze p).2 (store.analyze (p.rename f)).2 := by
  have hagree := (Pass.Renames.concord hf (.of p.events)).check p.closed _ _
    (.start f store.notes.literals)
  -- both analyses become checks from nothing, where the relation can start
  rw [store.analyze_eq_link (p.literalsAgree_literals store.notes),
    store.analyze_eq_link ((p.rename f).literalsAgree_literals store.notes)]
  cases hs : (Pass.check p).run (Pass.start store.notes.literals) with
  | ok u s =>
    cases ht : (Pass.check (p.rename f)).run (Pass.start store.notes.literals) with
    | ok v t =>
      rw [hs, ht] at hagree
      have hR := hagree.2
      refine ⟨by simp, ?_, ?_, hR.store.grown store p⟩
      · rintro _ _ ⟨⟩ ⟨⟩
        refine ⟨?_, hR.diagnostics, congrArg (ScopeStack.moved · _) hR.stack⟩
        show t.diagnostics.map _ = s.diagnostics.map _
        rw [hR.diagnostics, List.map_map]
        refine List.map_congr_left fun d _ => ?_
        simp only [Function.comp_apply, Diagnostic.code_rename]
        rfl
      · rintro e e' ⟨⟩
    | error e t =>
      rw [hs, ht] at hagree
      exact hagree.elim
  | error e s =>
    cases ht : (Pass.check (p.rename f)).run (Pass.start store.notes.literals) with
    | ok v t =>
      rw [hs, ht] at hagree
      exact hagree.elim
    | error e' t =>
      rw [hs, ht] at hagree
      refine ⟨by simp, ?_, ?_, hagree.2.store.grown store p⟩
      · rintro a a' ⟨⟩
      · rintro _ _ ⟨⟩ ⟨⟩
        exact hagree.1

/-- The name of some data and the name of a type change places. -/
def swapInt (name : String) : String :=
  if name = "n" then "int" else if name = "int" then "n" else name

theorem swapInt_injective : Function.Injective swapInt := by
  intro name other h
  unfold swapInt at h
  grind

/-- The three mistakes are found where they were. -/
theorem shadowing_renamed : Function.Injective swapInt ∧
    ∃ a', (({} : Store).analyze (shadowing.rename swapInt)).1 = .ok a' ∧
      a'.diagnostics.map (fun d => (d.severity, d.code, d.position))
        = [(.error, .duplicateSymbol, ⟨"shadow.dk", 3, 9⟩),
          (.error, .wrongSymbolClass, ⟨"shadow.dk", 4, 3⟩),
          (.error, .undefinedSymbol, ⟨"shadow.dk", 5, 3⟩)] := by
  have hn : shadowing.nodes.Nodup := by decide
  have hl : shadowing.untyped? ({} : Store).notes.literals = none := rfl
  obtain ⟨s, -, -, hok⟩ := Store.analyze_ok hn (by decide) hl
  have hfound : (({} : Store).analyze shadowing).1.toOption.map
      (fun a => a.diagnostics.map fun d => (d.severity, d.code, d.position))
        = some [(.error, .duplicateSymbol, ⟨"shadow.dk", 3, 9⟩),
          (.error, .wrongSymbolClass, ⟨"shadow.dk", 4, 3⟩),
          (.error, .undefinedSymbol, ⟨"shadow.dk", 5, 3⟩)] := by
    decide +kernel
  obtain ⟨hiff, hdiagnostics, -⟩ := analyze_rename swapInt_injective {} shadowing
  rw [hok] at hiff hdiagnostics hfound
  obtain ⟨a', ha'⟩ := hiff.mp ⟨_, rfl⟩
  exact ⟨swapInt_injective, a', ha', (hdiagnostics _ a' rfl ha').1.trans (Option.some.inj hfound)⟩

end Semant
