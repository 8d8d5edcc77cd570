import Semant.Analysis
import Semant.Proofs.Analyses
import Semant.Proofs.Lockstep

/-!
# Where in a store a check takes place

An analysis works in a store that may hold anything already. It could as well work in an empty one and
have its scopes, symbols and findings put on top of the store afterwards: `Store.analyze_eq_link` says
that this comes out the same, place by place. It is what makes a check comparable with any other check
of the same program, since the one from nothing is the same for all of them.

Two facts carry the argument. A search for a name never leaves the scopes of its own check, because
links lead to smaller places and the first scope of a check has no link. And a check asks about no node
whose cells were not emptied before, because it asks only about the nodes of its program.

The one thing that a check takes over from the store is the types of literals, and of those only the
types of literals that occur in the program. That is why the check from nothing may start from any
table of literals, as long as it agrees on these.
-/

set_option autoImplicit false

namespace Semant

/-! ## Changes on top of a store -/

theorem Cells.overlay_put {α β : Type} (lower : Cells α) (upper : Cells β) (f : β → α) (n : NodeId)
    (value : β) :
    lower.overlay (upper.put n value) f = (lower.overlay upper f).put n (f value) := by
  ext m : 1
  rw [get_overlay, get_put, get_put, get_overlay]
  by_cases h : n = m <;> simp [h]

theorem Cells.overlay_empty {α β : Type} (lower : Cells α) (f : β → α) :
    lower.overlay .empty f = lower := by
  ext m : 1
  simp [get_overlay]

theorem Bindings.insert_moved (bindings : Bindings) (symbolBase : Nat) (name : String)
    (symbol : SymbolRef) :
    (bindings.insert name symbol).moved symbolBase
      = (bindings.moved symbolBase).insert name (symbolBase + symbol) := by
  induction bindings with
  | nil => rfl
  | cons binding rest ih =>
    obtain ⟨other, s⟩ := binding
    unfold Bindings.moved at ih ⊢
    rw [List.map_cons, Bindings.insert, Bindings.insert]
    by_cases hlt : name < other
    · simp [hlt]
    · by_cases heq : name = other
      · simp [heq]
      · simp [hlt, heq, ih]

/-- Changing what was appended leaves the front alone. -/
theorem modify_append_right {α : Type} (front back : Array α) (i : Nat) (f : α → α) :
    (front ++ back).modify (front.size + i) f = front ++ back.modify i f := by
  apply Array.ext_getElem?
  intro j
  simp only [Array.getElem?_modify, Array.getElem?_append]
  by_cases hj : j < front.size
  · have hne : front.size + i ≠ j := by omega
    simp [hj, hne]
  · have hiff : front.size + i = j ↔ i = j - front.size := by omega
    simp [hj, hiff]

/-- What is seen through `g` may be changed there. -/
theorem map_modify {α β : Type} {g : α → β} {f : α → α} {f' : β → β}
    (h : ∀ x, g (f x) = f' (g x)) (xs : Array α) (i : Nat) :
    (xs.modify i f).map g = (xs.map g).modify i f' := by
  apply Array.ext_getElem?
  intro j
  simp only [Array.getElem?_map, Array.getElem?_modify]
  by_cases hij : i = j
  · cases xs[j]? <;> simp [hij, h]
  · simp [hij]

namespace Store

variable (base made : Store)

theorem size_link : (base.link made).scopes.size = base.scopes.size + made.scopes.size := by
  simp [link]

theorem symbols_size_link :
    (base.link made).symbols.size = base.symbols.size + made.symbols.size := by
  simp [link]

theorem link_addScope (scope : Scope) :
    base.link (made.addScope scope)
      = (base.link made).addScope (scope.moved base.scopes.size base.symbols.size) := by
  simp [link, addScope, Array.push_append]

theorem link_addSymbol (symbol : Symbol) :
    base.link (made.addSymbol symbol) = (base.link made).addSymbol symbol := by
  simp [link, addSymbol, Array.push_append]

theorem link_modifySymbol (ref : SymbolRef) (f : Symbol → Symbol) :
    base.link (made.modifySymbol ref f)
      = (base.link made).modifySymbol (base.symbols.size + ref) f := by
  simp [link, modifySymbol, modify_append_right]

theorem link_bindIn (scope : ScopeRef) (ref : SymbolRef) :
    base.link (made.bindIn scope ref)
      = (base.link made).bindIn (base.scopes.size + scope) (base.symbols.size + ref) := by
  have hname := congrArg Symbol.name (symbol_link base made ref)
  have hmap : (made.scopes.modify scope fun x =>
        { x with bindings := x.bindings.insert (made.symbol ref).name ref }).map
          (·.moved base.scopes.size base.symbols.size)
      = (made.scopes.map (·.moved base.scopes.size base.symbols.size)).modify scope fun x =>
        { x with
          bindings := x.bindings.insert (made.symbol ref).name (base.symbols.size + ref) } := by
    apply map_modify
    intro x
    simp [Scope.moved, Bindings.insert_moved]
  simp only [bindIn, hname]
  simp only [link, hmap, modify_append_right]

/-! The four kinds of cells that a check fills. -/

theorem link_withScope (n : NodeId) (scope : ScopeRef) :
    base.link (made.annotate (made.notes.withScope n scope))
      = (base.link made).annotate
          ((base.link made).notes.withScope n (base.scopes.size + scope)) := by
  simp [link, annotate, Annotations.withScope, Cells.overlay_put]

theorem link_withSymbol (n : NodeId) (ref : SymbolRef) :
    base.link (made.annotate (made.notes.withSymbol n ref))
      = (base.link made).annotate
          ((base.link made).notes.withSymbol n (base.symbols.size + ref)) := by
  simp [link, annotate, Annotations.withSymbol, Cells.overlay_put]

theorem link_withSignature (n : NodeId) (signature : Signature) :
    base.link (made.annotate (made.notes.withSignature n signature))
      = (base.link made).annotate ((base.link made).notes.withSignature n signature) := by
  simp [link, annotate, Annotations.withSignature, Cells.overlay_put]

theorem link_withType (n : NodeId) (type : Ty) :
    base.link (made.annotate (made.notes.withType n type))
      = (base.link made).annotate ((base.link made).notes.withType n type) := by
  simp [link, annotate, Annotations.withType, Cells.overlay_put]

end Store

/-! ## A check and its image on top of a store -/

/-- The state of a check that started from nothing, on top of a store. -/
def Pass.above (s : Pass) (base : Store) : Pass :=
  { s with store := base.link s.store, stack := s.stack.moved base.scopes.size }

theorem Pass.root_above {s : Pass} {base : Store} {root : ScopeRef} (h : s.stack.root = some root)
    (p : Program) : ((s.above base).findings p).root = base.scopes.size + root := by
  simp only [Pass.findings, Pass.above, ScopeStack.moved, h, Option.map_some, Option.getD_some]

/-- The cells of a territory are empty in a store, except that literals have types. -/
structure Store.Vacant (base : Store) (T : Territory) (literals : Cells Ty) : Prop where
  opens : ∀ n, T.opens n → base.notes.scopes.get n = none
  symbols : ∀ n, T.symbols n → base.notes.symbols.get n = none
  signs : ∀ n, T.signs n → base.notes.signatures.get n = none
  types : ∀ e, T.types e → base.notes.typeOf e = Annotations.typeOf { literals } e

/-- The second state is the first one on top of a store. Links in the first lead to smaller places,
which keeps searches inside. -/
structure Pass.Placed (base : Store) (literals : Cells Ty) (s t : Pass) : Prop where
  above : ∃ log, t = (s.above base).logged log
  literals : s.store.notes.literals = literals
  descends : s.store.Descends
  active : ∀ scope, s.stack.active = some scope → scope < s.store.scopes.size

namespace Pass.Placed

variable {base : Store} {literals : Cells Ty} {s t : Pass}

theorem store (h : Placed base literals s t) : t.store = base.link s.store := by
  obtain ⟨log, rfl⟩ := h.above
  rfl

theorem stack (h : Placed base literals s t) : t.stack = s.stack.moved base.scopes.size := by
  obtain ⟨log, rfl⟩ := h.above
  rfl

/-- A change that keeps all links. -/
theorem storing (h : Placed base literals s t) {made : Store}
    (hl : made.notes.literals = s.store.notes.literals)
    (hp : ∀ r, (made.scope r).parent = (s.store.scope r).parent)
    (hsize : made.scopes.size = s.store.scopes.size) :
    Placed base literals (s.storing made) (t.storing (base.link made)) where
  above := by
    obtain ⟨log, rfl⟩ := h.above
    exact ⟨log, rfl⟩
  literals := hl.trans h.literals
  descends := by
    intro ref parent hparent
    exact h.descends ref parent ((hp ref).symm.trans hparent)
  active := by
    intro scope ha
    change scope < made.scopes.size
    rw [hsize]
    exact h.active scope ha

/-- A change of annotations keeps all links. -/
theorem annotating (h : Placed base literals s t) {notes : Annotations} {notes' : Annotations}
    (hl : notes.literals = s.store.notes.literals)
    (hlink : base.link (s.store.annotate notes) = (base.link s.store).annotate notes') :
    Placed base literals (s.annotating notes) (t.annotating notes') := by
  have hplaced : Placed base literals (s.annotating notes) _ := h.storing hl (fun _ => rfl) rfl
  rw [hlink, ← h.store] at hplaced
  exact hplaced

theorem entering (h : Placed base literals s t) : Placed base literals s.entering t.entering where
  above := by
    obtain ⟨log, rfl⟩ := h.above
    have hroot : (s.stack.root.map (base.scopes.size + ·)).or
          (some (base.link s.store).scopes.size)
        = (s.stack.root.or (some s.store.scopes.size)).map (base.scopes.size + ·) := by
      rw [Store.size_link]
      cases s.stack.root <;> rfl
    refine ⟨log, ?_⟩
    simp only [Pass.entering, Pass.above, Pass.logged, ScopeStack.moved, Store.link_addScope, hroot]
    simp only [Store.size_link]
    rfl
  literals := h.literals
  descends := by
    intro ref parent hparent
    change ((s.store.addScope _).scope ref).parent = some parent at hparent
    rw [Store.scope_addScope] at hparent
    split at hparent
    · rename_i hnew
      rw [hnew]
      exact h.active parent hparent
    · exact h.descends ref parent hparent
  active := by
    intro scope ha
    cases ha
    change s.store.scopes.size < (s.store.addScope _).scopes.size
    rw [Store.size_addScope]
    exact Nat.lt_succ_self _

theorem leaving (h : Placed base literals s t) {scope : ScopeRef}
    (ha : s.stack.active = some scope) :
    Placed base literals (s.leaving scope) (t.leaving (base.scopes.size + scope)) where
  above := by
    obtain ⟨log, rfl⟩ := h.above
    refine ⟨log, ?_⟩
    have hparent := congrArg Scope.parent (Store.scope_link base s.store scope)
    simp only [Pass.leaving, Pass.above, Pass.logged, ScopeStack.moved, hparent]
    rfl
  literals := h.literals
  descends := h.descends
  active := by
    intro parent hparent
    exact Nat.lt_trans (h.descends scope parent hparent) (h.active scope ha)

end Pass.Placed

/-- **A check does not notice what it is on top of.** -/
theorem Pass.Placed.accord {base : Store} {T : Territory} {literals : Cells Ty}
    (hv : base.Vacant T literals) :
    Accord T (fun a b => b = base.scopes.size + a) (fun c d => d = base.symbols.size + c)
      (Pass.Placed base literals) where
  header := by
    intro s t h
    obtain ⟨log, rfl⟩ := h.above
    rfl
  function := by
    intro s t h
    obtain ⟨log, rfl⟩ := h.above
    rfl
  active := by
    intro s t h
    rw [h.stack]
    simp only [ScopeStack.moved]
    cases s.stack.active with
    | none => exact .none
    | some scope => exact .some rfl
  type := by
    intro s t h e he
    have hbase := hv.types e he
    rw [h.store]
    cases e with
    -- literals are the one kind of expression whose types both sides have from the start
    | literal id token given =>
      simp only [Annotations.typeOf] at hbase ⊢
      rw [h.literals]
      exact hbase.symm
    | _ =>
      simp only [Annotations.typeOf, Expr.id] at hbase ⊢
      rw [Store.types_link, hbase, Cells.get_empty, Option.or_none]
  slot := by
    intro s t h n hn
    rw [h.store, Store.symbols_link, hv.symbols n hn, Option.or_none]
    cases s.store.notes.symbols.get n with
    | none => exact .none
    | some symbol => exact .some rfl
  opened := by
    intro s t h n hn
    rw [h.store, Store.scopes_link, hv.opens n hn, Option.or_none, Option.isSome_map]
  signed := by
    intro s t h n hn
    rw [h.store, Store.signatures_link, hv.signs n hn, Option.or_none]
  name := by
    rintro s t h a _ rfl
    rw [h.store, Store.symbol_link]
  interface := by
    rintro s t h a _ rfl
    rw [h.store, Store.symbol_link]
  find := by
    rintro s t h a _ rfl name
    rw [h.store, Store.find?_link base h.descends]
    cases s.store.find? a name with
    | none => exact .none
    | some symbol => exact .some rfl
  logged := by
    intro s t h l l'
    obtain ⟨log, rfl⟩ := h.above
    exact ⟨⟨l', rfl⟩, h.literals, h.descends, h.active⟩
  reporting := by
    intro s t h ds
    obtain ⟨log, rfl⟩ := h.above
    exact ⟨⟨log, rfl⟩, h.literals, h.descends, h.active⟩
  heading := by
    intro s t h header
    obtain ⟨log, rfl⟩ := h.above
    exact ⟨⟨log, rfl⟩, h.literals, h.descends, h.active⟩
  inside := by
    intro s t h function
    obtain ⟨log, rfl⟩ := h.above
    exact ⟨⟨log, rfl⟩, h.literals, h.descends, h.active⟩
  entering := by
    intro s t h
    refine ⟨?_, h.entering⟩
    rw [h.store, Store.size_link]
  leaving := by
    rintro s t h a _ ha _ rfl
    exact h.leaving ha
  adding := by
    intro s t h added _
    rw [h.store]
    refine ⟨Store.symbols_size_link base s.store, ?_⟩
    rw [← Store.link_addSymbol]
    exact h.storing rfl (fun _ => rfl) rfl
  binding := by
    rintro s t h a _ rfl c _ rfl
    rw [h.store, ← Store.link_bindIn]
    exact h.storing rfl (Store.parent_bindIn s.store a · c) (Store.size_bindIn s.store a c)
  signing := by
    rintro s t h c _ rfl signature
    rw [Pass.changing, Pass.changing, h.store, ← Store.link_modifySymbol]
    exact h.storing rfl (fun _ => rfl) rfl
  initing := by
    rintro s t h c _ rfl
    rw [Pass.changing, Pass.changing, h.store, ← Store.link_modifySymbol]
    exact h.storing rfl (fun _ => rfl) rfl
  counting := by
    rintro _ s t h c _ rfl
    rw [Pass.changing, Pass.changing, h.store, ← Store.link_modifySymbol]
    exact h.storing rfl (fun _ => rfl) rfl
  withScope := by
    rintro s t h n _ a _ rfl
    rw [h.store]
    exact h.annotating rfl (Store.link_withScope base s.store n a)
  withSymbol := by
    rintro s t h n _ c _ rfl
    rw [h.store]
    exact h.annotating rfl (Store.link_withSymbol base s.store n c)
  withSignature := by
    intro s t h n _ signature
    rw [h.store]
    exact h.annotating rfl (Store.link_withSignature base s.store n signature)
  withType := by
    intro s t h e _ _ type
    rw [h.store]
    exact h.annotating rfl (Store.link_withType base s.store e.id type)

/-! ## Analyses -/

/-- Two stores give the literals of a program the same types. -/
def Program.LiteralsAgree (p : Program) (notes notes' : Annotations) : Prop :=
  ∀ e, .enterExpr e ∈ p.events → e.isLiteral = true → notes.typeOf e = notes'.typeOf e

/-- The table of literals is all that types of literals depend on. -/
theorem Program.literalsAgree_literals (p : Program) (notes : Annotations) :
    p.LiteralsAgree notes { literals := notes.literals } := by
  intro e _ he
  cases e with
  | literal id token given => rfl
  | _ => cases he

/-- Once a program was cleared, there is nothing in its cells that a check could find. -/
theorem Store.vacant_clear (store : Store) {p : Program} {literals : Cells Ty}
    (h : p.LiteralsAgree store.notes { literals }) :
    (store.annotate (store.notes.clear p)).Vacant (.of p.events) literals where
  opens := by
    rintro n ⟨event, hm, hn⟩
    exact store.notes.scopes_clear hm hn
  symbols := by
    rintro n ⟨event, hm, hn⟩
    exact store.notes.symbols_clear hm hn
  signs := by
    rintro n ⟨f, hm, rfl⟩
    exact store.notes.signatures_clear hm
  types := by
    intro e hm
    cases e with
    | literal id token given =>
      have hagree := h _ hm rfl
      simp only [Annotations.typeOf, Store.notes_annotate, Annotations.literals_clear] at hagree ⊢
      exact hagree
    | _ =>
      simp only [Annotations.typeOf, Cells.get_empty]
      exact store.notes.types_clear hm rfl

theorem Pass.Placed.start (base : Store) (literals : Cells Ty) :
    Pass.Placed base literals (Pass.start literals) { store := base } where
  above := by
    refine ⟨#[], ?_⟩
    simp [Pass.start, Pass.above, Pass.logged, ScopeStack.moved, Store.link, Cells.overlay_empty]
  literals := rfl
  descends := by
    intro ref parent h
    simp [Pass.start, Store.scope] at h
  active := by
    intro scope h
    cases h

/-- The store once the cells of a program were emptied and a check from nothing was put on top. -/
def Store.grown (store : Store) (p : Program) (made : Store) : Store :=
  (store.annotate (store.notes.clear p)).link made

/-- **An analysis is a check from nothing, put on top of the store.** -/
theorem Store.analyze_eq_link (store : Store) {p : Program} {literals : Cells Ty}
    (h : p.LiteralsAgree store.notes { literals }) :
    store.analyze p = match (Pass.check p).run (Pass.start literals) with
      | .ok _ s =>
        (.ok ((s.above store).findings p), store.grown p s.store)
      | .error e s => (.error e, store.grown p s.store) := by
  -- the two checks run side by side, the second one on top of the emptied store
  have hmeet := (Pass.Placed.accord (store.vacant_clear h)).check p.closed _ _
    (Pass.Placed.start _ literals)
  rw [store.analyze_eq]
  unfold Store.checking
  cases hs : (Pass.check p).run (Pass.start literals) with
  | ok u s =>
    cases ht : (Pass.check p).run { store := store.annotate (store.notes.clear p) } with
    | ok v t =>
      rw [hs, ht] at hmeet
      obtain ⟨log, rfl⟩ := hmeet.2.above
      rfl
    | error e t =>
      rw [hs, ht] at hmeet
      -- one goes through and the other stops: `Meet` has no such case
      exact hmeet.elim
  | error e s =>
    cases ht : (Pass.check p).run { store := store.annotate (store.notes.clear p) } with
    | ok v t =>
      rw [hs, ht] at hmeet
      exact hmeet.elim
    | error e' t =>
      rw [hs, ht] at hmeet
      obtain ⟨rfl, hplaced⟩ := hmeet
      obtain ⟨log, rfl⟩ := hplaced.above
      rfl

/-! ## What is found afterwards -/

section Cleared

variable (store : Store) (p : Program) (made : Store)

theorem Store.scope_grown (i : Nat) :
    (store.grown p made).scope (store.scopes.size + i)
      = (made.scope i).moved store.scopes.size store.symbols.size :=
  scope_link _ made i

theorem Store.size_grown :
    (store.grown p made).scopes.size = store.scopes.size + made.scopes.size :=
  size_link _ made

theorem Store.findLocal?_grown (i : Nat) (name : String) :
    (store.grown p made).findLocal? (store.scopes.size + i) name
      = (made.findLocal? i name).map (store.symbols.size + ·) :=
  findLocal?_link _ made i name

theorem Store.symbol_grown (i : Nat) :
    (store.grown p made).symbol (store.symbols.size + i)
      = made.symbol i :=
  symbol_link _ made i

/-- What the check put into a cell is there. -/
theorem Store.scopes_grown_some {n : NodeId} {k : ScopeRef}
    (h : made.notes.scopes.get n = some k) :
    (store.grown p made).notes.scopes.get n = some (store.scopes.size + k) := by
  rw [grown, scopes_link, h]
  rfl

/-! A cell that was emptied holds what the check put there, and nothing else. -/

variable {p}

theorem Store.symbols_grown {event : Event} (hm : event ∈ p.events) {n : NodeId}
    (hn : event.mentions? = some n) :
    (store.grown p made).notes.symbols.get n
      = (made.notes.symbols.get n).map (store.symbols.size + ·) := by
  rw [grown, symbols_link, notes_annotate, Annotations.symbols_clear hm hn, Option.or_none]
  rfl

theorem Store.scopes_grown {event : Event} (hm : event ∈ p.events) {n : NodeId}
    (hn : event.opens? = some n) :
    (store.grown p made).notes.scopes.get n
      = (made.notes.scopes.get n).map (store.scopes.size + ·) := by
  rw [grown, scopes_link, notes_annotate, Annotations.scopes_clear hm hn, Option.or_none]
  rfl

theorem Store.signatures_grown {f : Function} (hm : .enterFunction f ∈ p.events) :
    (store.grown p made).notes.signatures.get f.id
      = made.notes.signatures.get f.id := by
  rw [grown, signatures_link, notes_annotate, Annotations.signatures_clear hm, Option.or_none]

theorem Store.types_grown {e : Expr} (hm : .enterExpr e ∈ p.events)
    (he : e.isLiteral = false) :
    (store.grown p made).notes.typeOf e
      = made.notes.types.get e.id := by
  cases e with
  | literal id token given => cases he
  | _ =>
    simp only [Annotations.typeOf]
    rw [grown, types_link, notes_annotate, Annotations.types_clear hm rfl, Option.or_none]

/-- Literals have the types that they had. -/
theorem Store.literals_grown {e : Expr} (he : e.isLiteral = true) :
    (store.grown p made).notes.typeOf e = store.notes.typeOf e := by
  cases e with
  | literal id token given =>
    simp only [Annotations.typeOf, grown, link, notes_annotate, Annotations.literals_clear]
  | _ => cases he

end Cleared

end Semant
