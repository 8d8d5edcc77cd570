import Semant.Store

/-!
# What the operations of a store do to its views

A store is read through four views: the scope at a place (`Store.scope`), the symbol at a place
(`Store.symbol`), a name in one scope (`Store.findLocal?`) and a name in a scope and those around it
(`Store.find?`). Here each operation gets one lemma per view that it changes, and one that says
that the view is left alone otherwise. After this file nobody opens the arrays.

`Store.find?` follows links with a bound on their number. The bound never bites as long as links
lead to smaller places, and then the search may be done on the links alone: that is `find?_eq_orElse`.

`Store.link` puts one store on top of another. No pass does that. It is how the store after a check
is described by the store that the same check leaves when it starts from nothing.
-/

set_option autoImplicit false

namespace Semant

theorem Bindings.find?_cons (name : String) (symbol : SymbolRef) (rest : Bindings) (n : String) :
    Bindings.find? ((name, symbol) :: rest) n
      = if n = name then some symbol else Bindings.find? rest n := by
  simp only [Bindings.find?, List.lookup_cons]
  by_cases h : n = name
  · simp [h]
  · have hb : (n == name) = false := by simpa using h
    simp [hb, h]

theorem Bindings.find?_insert (bindings : Bindings) (name : String) (symbol : SymbolRef)
    (n : String) :
    (bindings.insert name symbol).find? n = if n = name then some symbol else bindings.find? n := by
  induction bindings with
  | nil => exact Bindings.find?_cons name symbol [] n
  | cons binding rest ih =>
    obtain ⟨other, s⟩ := binding
    unfold Bindings.insert
    split
    · exact Bindings.find?_cons name symbol _ n
    · split
      · rename_i heq
        subst heq
        rw [Bindings.find?_cons, Bindings.find?_cons]
        by_cases h : n = name <;> simp [h]
      · rename_i hne
        rw [Bindings.find?_cons, Bindings.find?_cons, ih]
        by_cases h : n = other
        · subst h
          simp [Ne.symm hne]
        · simp [h]

/-- Bindings of symbols that were moved behind others. -/
def Bindings.moved (bindings : Bindings) (symbolBase : Nat) : Bindings :=
  bindings.map fun binding => (binding.1, symbolBase + binding.2)

theorem Bindings.find?_moved (bindings : Bindings) (symbolBase : Nat) (name : String) :
    (bindings.moved symbolBase).find? name = (bindings.find? name).map (symbolBase + ·) := by
  induction bindings with
  | nil => rfl
  | cons binding rest ih =>
    unfold Bindings.moved at ih
    obtain ⟨other, symbol⟩ := binding
    rw [Bindings.moved, List.map_cons, Bindings.find?_cons, Bindings.find?_cons, ih]
    by_cases h : name = other <;> simp [h]

namespace Store

/-! ## Scopes -/

theorem scope_addScope (store : Store) (scope : Scope) (ref : ScopeRef) :
    (store.addScope scope).scope ref
      = if ref = store.scopes.size then scope else store.scope ref := by
  simp only [Store.scope, addScope, Array.getD_eq_getD_getElem?, Array.getElem?_push]
  split <;> simp

@[simp]
theorem scopes_addSymbol (store : Store) (symbol : Symbol) :
    (store.addSymbol symbol).scopes = store.scopes := rfl

@[simp]
theorem scopes_annotate (store : Store) (notes : Annotations) :
    (store.annotate notes).scopes = store.scopes := rfl

@[simp]
theorem symbols_annotate (store : Store) (notes : Annotations) :
    (store.annotate notes).symbols = store.symbols := rfl

@[simp]
theorem notes_annotate (store : Store) (notes : Annotations) :
    (store.annotate notes).notes = notes := rfl

theorem size_addScope (store : Store) (scope : Scope) :
    (store.addScope scope).scopes.size = store.scopes.size + 1 := by
  simp [addScope]

@[simp]
theorem size_bindIn (store : Store) (ref : ScopeRef) (symbol : SymbolRef) :
    (store.bindIn ref symbol).scopes.size = store.scopes.size := by
  simp [bindIn]

theorem scope_bindIn (store : Store) (ref r : ScopeRef) (symbol : SymbolRef) :
    (store.bindIn ref symbol).scope r
      = if ref = r ∧ r < store.scopes.size then
          { store.scope r with
            bindings := (store.scope r).bindings.insert (store.symbol symbol).name symbol }
        else store.scope r := by
  simp only [Store.scope, bindIn, Array.getD_eq_getD_getElem?, Array.getElem?_modify]
  by_cases hr : ref = r
  · subst hr
    by_cases hlt : ref < store.scopes.size
    · simp [hlt]
    · simp [hlt]
  · simp [hr]

theorem parent_bindIn (store : Store) (ref r : ScopeRef) (symbol : SymbolRef) :
    ((store.bindIn ref symbol).scope r).parent = (store.scope r).parent := by
  rw [scope_bindIn]
  split <;> rfl

theorem id_bindIn (store : Store) (ref r : ScopeRef) (symbol : SymbolRef) :
    ((store.bindIn ref symbol).scope r).id = (store.scope r).id := by
  rw [scope_bindIn]
  split <;> rfl

/-! ## Symbols -/

theorem symbol_addSymbol (store : Store) (symbol : Symbol) (ref : SymbolRef) :
    (store.addSymbol symbol).symbol ref
      = if ref = store.symbols.size then symbol else store.symbol ref := by
  simp only [Store.symbol, addSymbol, Array.getD_eq_getD_getElem?, Array.getElem?_push]
  split <;> simp

theorem symbol_modifySymbol_eq (store : Store) (ref r : SymbolRef) (f : Symbol → Symbol) :
    (store.modifySymbol ref f).symbol r
      = if ref = r ∧ r < store.symbols.size then f (store.symbol r) else store.symbol r := by
  simp only [Store.symbol, modifySymbol, Array.getD_eq_getD_getElem?, Array.getElem?_modify]
  by_cases hr : ref = r
  · subst hr
    by_cases hlt : ref < store.symbols.size
    · simp [hlt]
    · simp [hlt]
  · simp [hr]

theorem symbol_modifySymbol (store : Store) (ref r : SymbolRef) (f : Symbol → Symbol)
    (h : r < store.symbols.size) :
    (store.modifySymbol ref f).symbol r = if ref = r then f (store.symbol r) else store.symbol r := by
  simp [symbol_modifySymbol_eq, h]

theorem size_addSymbol (store : Store) (symbol : Symbol) :
    (store.addSymbol symbol).symbols.size = store.symbols.size + 1 := by
  simp [addSymbol]

@[simp]
theorem size_modifySymbol (store : Store) (ref : SymbolRef) (f : Symbol → Symbol) :
    (store.modifySymbol ref f).symbols.size = store.symbols.size := by
  simp [modifySymbol]

theorem symbol_of_size_le (store : Store) {r : SymbolRef} (h : store.symbols.size ≤ r) :
    store.symbol r = default := by
  simp only [Store.symbol, Array.getD_eq_getD_getElem?]
  rw [Array.getElem?_eq_none h]
  rfl

/-- A change that leaves the number of references alone leaves it alone everywhere. -/
theorem refs_modifySymbol (store : Store) (ref r : SymbolRef) {f : Symbol → Symbol}
    (hf : ∀ x, (f x).refs = x.refs) :
    ((store.modifySymbol ref f).symbol r).refs = (store.symbol r).refs := by
  rw [symbol_modifySymbol_eq]
  split
  · exact hf _
  · rfl

/-- A reference counts for its symbol and for no other. -/
theorem refs_countRef (store : Store) {ref : SymbolRef} (h : ref < store.symbols.size)
    (r : SymbolRef) :
    ((store.modifySymbol ref fun x => { x with refs := x.refs + 1 }).symbol r).refs
      = (store.symbol r).refs + if ref = r then 1 else 0 := by
  rw [symbol_modifySymbol_eq]
  by_cases hr : ref = r
  · subst hr
    rw [if_pos ⟨rfl, h⟩, if_pos rfl]
  · rw [if_neg (fun hc => hr hc.1), if_neg hr, UInt32.add_zero]

@[simp]
theorem symbol_annotate (store : Store) (notes : Annotations) (r : SymbolRef) :
    (store.annotate notes).symbol r = store.symbol r := rfl

/-! ## Names in one scope -/

/-- Nothing is bound in a scope that is not there. -/
theorem findLocal?_bindIn_eq (store : Store) (ref r : ScopeRef) (symbol : SymbolRef) (n : String) :
    (store.bindIn ref symbol).findLocal? r n
      = if (ref = r ∧ r < store.scopes.size) ∧ n = (store.symbol symbol).name then some symbol
        else store.findLocal? r n := by
  rw [findLocal?, scope_bindIn]
  by_cases hthere : ref = r ∧ r < store.scopes.size
  · rw [if_pos hthere, Bindings.find?_insert]
    simp [hthere, findLocal?]
  · rw [if_neg hthere, if_neg (fun hand => hthere hand.1), findLocal?]

theorem findLocal?_bindIn (store : Store) (ref r : ScopeRef) (symbol : SymbolRef) (n : String)
    (h : ref < store.scopes.size) :
    (store.bindIn ref symbol).findLocal? r n
      = if ref = r ∧ n = (store.symbol symbol).name then some symbol else store.findLocal? r n := by
  rw [findLocal?_bindIn_eq]
  by_cases hr : ref = r
  · subst hr
    simp [h]
  · simp [hr]

theorem findLocal?_addScope (store : Store) (scope : Scope) (r : ScopeRef) (n : String)
    (h : r < store.scopes.size) :
    (store.addScope scope).findLocal? r n = store.findLocal? r n := by
  simp only [findLocal?, scope_addScope]
  rw [if_neg (Nat.ne_of_lt h)]

/-! ## Names in a scope and those around it -/

/-- Every link leads to a smaller place. -/
def Descends (store : Store) : Prop :=
  ∀ ref parent, (store.scope ref).parent = some parent → parent < ref

/-- Following at least as many links as the place says, the bound has no influence. -/
theorem chainUpTo_eq_chain {store : Store} (hd : store.Descends) :
    ∀ (fuel : Nat) (ref : ScopeRef), ref < fuel → store.chainUpTo fuel ref = store.chain ref := by
  intro fuel
  induction fuel using Nat.strongRecOn with
  | _ fuel ih =>
    intro ref hlt
    cases fuel with
    | zero => exact absurd hlt (Nat.not_lt_zero ref)
    | succ fuel =>
      simp only [chain, chainUpTo]
      cases hp : (store.scope ref).parent with
      | none => rfl
      | some parent =>
        have hpr : parent < ref := hd ref parent hp
        have hpf : parent < fuel := Nat.lt_of_lt_of_le hpr (Nat.le_of_lt_succ hlt)
        have hleft := ih fuel (Nat.lt_succ_self fuel) parent hpf
        have hright := ih ref hlt parent hpr
        simp only [hleft, hright]

/-- **The search follows the links**: a name is looked up in the scope itself, and where that one
    does not bind it, in the scope around it. -/
theorem find?_eq_orElse {store : Store} (hd : store.Descends) (ref : ScopeRef) (n : String) :
    store.find? ref n
      = (store.findLocal? ref n).or ((store.scope ref).parent.bind fun r => store.find? r n) := by
  have hchain : store.chain ref
      = ref :: ((store.scope ref).parent.map fun r => store.chain r).getD [] := by
    conv => lhs; rw [chain, chainUpTo]
    cases hp : (store.scope ref).parent with
    | none => rfl
    | some parent => simp [chainUpTo_eq_chain hd ref parent (hd ref parent hp)]
  rw [find?, hchain, List.findSome?_cons]
  cases hl : store.findLocal? ref n with
  | some symbol => rfl
  | none => cases hp : (store.scope ref).parent <;> simp [find?]

/-- A search reads nothing of a store but its scopes. -/
theorem find?_congr {a b : Store} (h : a.scopes = b.scopes) (ref : ScopeRef) (n : String) :
    a.find? ref n = b.find? ref n := by
  have hscope : ∀ r, a.scope r = b.scope r := fun r => by simp [Store.scope, h]
  have hlocal : a.findLocal? = b.findLocal? := by
    funext r n
    simp [findLocal?, hscope]
  have hchain : ∀ fuel r, a.chainUpTo fuel r = b.chainUpTo fuel r := by
    intro fuel
    induction fuel with
    | zero => intro r; rfl
    | succ fuel ih => intro r; simp only [chainUpTo, hscope, ih]
  simp only [find?, chain, hchain, hlocal]

theorem find?_addSymbol (store : Store) (symbol : Symbol) (ref : ScopeRef) (n : String) :
    (store.addSymbol symbol).find? ref n = store.find? ref n :=
  find?_congr (scopes_addSymbol store symbol) ref n

end Store

/-! ## Stores on top of others -/

/-- The cells of `upper`, seen through `f`, on top of others. -/
def Cells.overlay {α β : Type} (lower : Cells α) (upper : Cells β) (f : β → α) : Cells α :=
  ⟨lower.filled ∪ upper.filled.map fun _ value => f value⟩

theorem Cells.get_overlay {α β : Type} (lower : Cells α) (upper : Cells β) (f : β → α)
    (n : NodeId) :
    (lower.overlay upper f).get n = ((upper.get n).map f).or (lower.get n) := by
  simp [get, overlay, Std.ExtTreeMap.getElem?_union, Std.ExtTreeMap.getElem?_map]

/-- Where a stack stands once the scopes of its store were moved behind others. -/
def ScopeStack.moved (stack : ScopeStack) (scopeBase : Nat) : ScopeStack :=
  { stack with
    root := stack.root.map (scopeBase + ·)
    active := stack.active.map (scopeBase + ·) }

/-- A scope whose store was put on top of another. -/
def Scope.moved (scope : Scope) (scopeBase symbolBase : Nat) : Scope :=
  { scope with
    parent := scope.parent.map (scopeBase + ·)
    bindings := scope.bindings.moved symbolBase }

namespace Store

/-- Everything that was made in a store of its own is added. Its places are moved behind those that
are taken, and its annotations go on top. -/
def link (base made : Store) : Store :=
  { scopes := base.scopes ++ made.scopes.map (·.moved base.scopes.size base.symbols.size)
    symbols := base.symbols ++ made.symbols
    notes :=
      { literals := base.notes.literals
        types := base.notes.types.overlay made.notes.types id
        scopes := base.notes.scopes.overlay made.notes.scopes (base.scopes.size + ·)
        symbols := base.notes.symbols.overlay made.notes.symbols (base.symbols.size + ·)
        signatures := base.notes.signatures.overlay made.notes.signatures id } }

/-- The symbols of a store that was linked are found behind those that were there. -/
theorem symbol_link (base made : Store) (ref : SymbolRef) :
    (base.link made).symbol (base.symbols.size + ref) = made.symbol ref := by
  have hbehind : ¬ base.symbols.size + ref < base.symbols.size := by omega
  simp [symbol, link, Array.getD_eq_getD_getElem?, Array.getElem?_append, hbehind]

/-- So are its scopes. -/
theorem scope_link (base made : Store) (ref : ScopeRef) :
    (base.link made).scope (base.scopes.size + ref)
      = (made.scope ref).moved base.scopes.size base.symbols.size := by
  have hbehind : ¬ base.scopes.size + ref < base.scopes.size := by omega
  simp only [scope, link, Array.getD_eq_getD_getElem?, Array.getElem?_append, if_neg hbehind,
    Nat.add_sub_cancel_left, Array.getElem?_map]
  cases made.scopes[ref]? <;> rfl

theorem symbol_link_below (base made : Store) {ref : SymbolRef} (h : ref < base.symbols.size) :
    (base.link made).symbol ref = base.symbol ref := by
  simp [symbol, link, Array.getD_eq_getD_getElem?, Array.getElem?_append, h]

theorem scope_link_below (base made : Store) {ref : ScopeRef} (h : ref < base.scopes.size) :
    (base.link made).scope ref = base.scope ref := by
  simp [scope, link, Array.getD_eq_getD_getElem?, Array.getElem?_append, h]

theorem findLocal?_link (base made : Store) (ref : ScopeRef) (name : String) :
    (base.link made).findLocal? (base.scopes.size + ref) name
      = (made.findLocal? ref name).map (base.symbols.size + ·) := by
  rw [findLocal?, scope_link]
  exact Bindings.find?_moved _ _ _

/-- A search that starts in a store that was linked never leaves it. -/
theorem find?_link (base : Store) {made : Store} (hd : made.Descends) (ref : ScopeRef)
    (name : String) :
    (base.link made).find? (base.scopes.size + ref) name
      = (made.find? ref name).map (base.symbols.size + ·) := by
  have hchain : ∀ fuel r, (base.link made).chainUpTo fuel (base.scopes.size + r)
      = (made.chainUpTo fuel r).map (base.scopes.size + ·) := by
    intro fuel
    induction fuel with
    | zero => intro r; rfl
    | succ fuel ih =>
      intro r
      simp only [chainUpTo, scope_link, Scope.moved]
      cases (made.scope r).parent with
      | none => rfl
      | some parent => simp [ih]
  have hfuel := chainUpTo_eq_chain hd (base.scopes.size + ref + 1) ref
    (Nat.lt_succ_of_le (Nat.le_add_left ref base.scopes.size))
  rw [find?, chain, hchain, hfuel, List.findSome?_map, find?]
  induction made.chain ref with
  | nil => rfl
  | cons r rest ih =>
    rw [List.findSome?_cons, List.findSome?_cons, Function.comp_apply, findLocal?_link]
    cases made.findLocal? r name with
    | none => exact ih
    | some symbol => rfl

theorem types_link (base made : Store) (n : NodeId) :
    (base.link made).notes.types.get n = (made.notes.types.get n).or (base.notes.types.get n) := by
  simp [link, Cells.get_overlay]

theorem scopes_link (base made : Store) (n : NodeId) :
    (base.link made).notes.scopes.get n
      = ((made.notes.scopes.get n).map (base.scopes.size + ·)).or (base.notes.scopes.get n) :=
  Cells.get_overlay _ _ _ n

theorem signatures_link (base made : Store) (n : NodeId) :
    (base.link made).notes.signatures.get n
      = (made.notes.signatures.get n).or (base.notes.signatures.get n) := by
  simp [link, Cells.get_overlay]

theorem symbols_link (base made : Store) (n : NodeId) :
    (base.link made).notes.symbols.get n
      = ((made.notes.symbols.get n).map (base.symbols.size + ·)).or (base.notes.symbols.get n) :=
  Cells.get_overlay _ _ _ n

end Store

end Semant
