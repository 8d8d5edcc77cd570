import Mathlib.Logic.Function.Basic
import Semant.Proofs.Operations

/-!
# Stacks of scopes that share a store

A store keeps the scopes of everybody who works in it, and a stack may be asked to enter any of them.
This file follows any number of stacks in one store, from the first scope on. Each has a number, and with
each goes the list of the scopes that it opened (`Stacks.made`), which no program looks at.

What a stack did is in order whatever the others do in between, and whichever of its steps fail: its
scopes are numbered as they were opened, each lies inside an earlier one or inside none, and the active
one is among them (`Stacks.Sound`). The one step that could break this is to enter a scope of somebody
else. But a scope is entered from the one around it, and scopes of different stacks never lie inside each
other.

Since links lead to scopes that were opened earlier, following them ends.
-/

set_option autoImplicit false

namespace Semant

/-- Stacks at work in one store, and for each of them the scopes that it opened, the first one first. -/
structure Stacks where
  store : Store := {}
  stack : Nat → ScopeStack := fun _ => {}
  made : Nat → List ScopeRef := fun _ => []

namespace Stacks

/-- Something was done with one of the stacks and ended in the state `s`. The scopes that the store did
not have before are those that the stack opened. -/
def after (c : Stacks) (who : Nat) (s : Pass) : Stacks where
  store := s.store
  stack := Function.update c.stack who s.stack
  made := Function.update c.made who
    (c.made who ++ List.range' c.store.scopes.size (s.store.scopes.size - c.store.scopes.size))

/-- One step of somebody. Whatever else a pass keeps beside its store and its stack may be anything. -/
inductive Step : Stacks → Stacks → Prop
  /-- An operation, which may fail. -/
  | operate (c : Stacks) (who : Nat) (s : Pass) (op : Operation) : s.store = c.store →
      s.stack = c.stack who → op.Refers s.store → Step c (c.after who (op.apply s))
  /-- Cells are written by hand. -/
  | annotate (c : Stacks) (notes : Annotations) : Step c { c with store := c.store.annotate notes }
  /-- An analysis, with a stack that was not used before. It may fail as well. -/
  | analyze (c : Stacks) (who : Nat) (p : Program) : c.stack who = {} →
      Step c (c.after who (Pass.after ((Pass.check p).run (c.store.checking p))))

/-- Stacks that can come about. -/
def Reachable (c : Stacks) : Prop := Relation.ReflTransGen Step {} c

end Stacks

/-! ## Scopes in the order in which they were opened -/

/-- The scopes are numbered from zero on. Each was added to the store after the earlier ones, and lies
inside one of them or inside none. -/
inductive Store.Opened (store : Store) : List ScopeRef → Prop
  | nil : Opened store []
  | snoc {made : List ScopeRef} {ref : ScopeRef} : Opened store made → ref < store.scopes.size →
      (store.scope ref).id = made.length → (∀ r ∈ made, r < ref) →
      (∀ parent, (store.scope ref).parent = some parent → parent ∈ made) →
      Opened store (made ++ [ref])

namespace Store.Opened

variable {store later : Store} {made : List ScopeRef}

theorem lt_size (h : store.Opened made) : ∀ ref ∈ made, ref < store.scopes.size := by
  induction h with
  | nil => simp
  | snoc _ hlt _ _ _ ih =>
    intro r hm
    rcases List.mem_append.mp hm with hm | hm
    · exact ih r hm
    · rwa [List.mem_singleton.mp hm]

/-- Scopes that are kept stay in order. -/
theorem keeps (h : store.Opened made) (hk : store.Keeps later) : later.Opened made := by
  induction h with
  | nil => exact .nil
  | snoc _ hlt hid horder hparent ih =>
    refine .snoc ih (Nat.lt_of_lt_of_le hlt hk.size) ((hk.id _ hlt).trans hid) horder ?_
    rw [hk.parent _ hlt]
    exact hparent

/-- The scope around one of them is one of them, and was opened before. -/
theorem parent_mem (h : store.Opened made) {ref parent : ScopeRef} (hm : ref ∈ made)
    (hp : (store.scope ref).parent = some parent) : parent ∈ made ∧ parent < ref := by
  induction h with
  | nil => cases hm
  | snoc _ _ _ horder hparent ih =>
    rcases List.mem_append.mp hm with hm | hm
    · obtain ⟨hin, hlt⟩ := ih hm
      exact ⟨List.mem_append_left _ hin, hlt⟩
    · cases List.mem_singleton.mp hm
      have hin := hparent parent hp
      exact ⟨List.mem_append_left _ hin, horder parent hin⟩

/-- The scope opened after so many others has their number, and lies inside one of them or none. -/
theorem split (h : store.Opened made) {before rest : List ScopeRef} {ref : ScopeRef}
    (hsplit : made = before ++ ref :: rest) :
    (store.scope ref).id = before.length ∧
      ∀ parent, (store.scope ref).parent = some parent → parent ∈ before := by
  induction h generalizing rest with
  | nil => simp at hsplit
  | @snoc made last _ _ hid _ hparent ih =>
    rcases List.eq_nil_or_concat rest with rfl | ⟨rest, other, rfl⟩
    · obtain ⟨rfl, hlast⟩ := List.append_inj' hsplit rfl
      cases hlast
      exact ⟨hid, hparent⟩
    · rw [List.concat_eq_append, ← List.cons_append, ← List.append_assoc] at hsplit
      exact ih (List.append_inj' hsplit rfl).1

end Store.Opened

/-- There is no scope around one that is not there. -/
theorem Store.parent_of_size_le (store : Store) {ref : ScopeRef} (h : store.scopes.size ≤ ref) :
    (store.scope ref).parent = none := by
  rw [Store.scope, Array.getD_eq_getD_getElem?, Array.getElem?_eq_none h]
  rfl

/-- A stack that opened these scopes counts them, has the first of them as its root, and one of them as
its active scope, if any. -/
structure ScopeStack.InOrder (stack : ScopeStack) (store : Store) (made : List ScopeRef) : Prop where
  opened : store.Opened made
  next : stack.next = made.length
  root : stack.root = made.head?
  active : ∀ ref, stack.active = some ref → ref ∈ made

namespace ScopeStack.InOrder

variable {stack : ScopeStack} {store : Store} {made : List ScopeRef}

theorem new (store : Store) : ({} : ScopeStack).InOrder store [] :=
  ⟨.nil, rfl, rfl, fun _ h => nomatch h⟩

theorem keeps {later : Store} (h : stack.InOrder store made) (hk : store.Keeps later) :
    stack.InOrder later made :=
  ⟨h.opened.keeps hk, h.next, h.root, h.active⟩

/-- A scope is opened inside the active one. -/
theorem entering {s : Pass} (h : s.stack.InOrder s.store made) :
    s.entering.stack.InOrder s.entering.store (made ++ [s.store.scopes.size]) := by
  have hscope : s.entering.store.scope s.store.scopes.size
      = { id := s.stack.next, parent := s.stack.active } :=
    (Store.scope_addScope _ _ _).trans (if_pos rfl)
  refine ⟨.snoc (h.opened.keeps (Pass.Move.opening s).keeps) ?_ ?_ h.opened.lt_size ?_, ?_, ?_, ?_⟩
  · exact Nat.lt_of_lt_of_eq (Nat.lt_succ_self _) (Store.size_addScope _ _).symm
  · rw [hscope]
    exact h.next
  · rw [hscope]
    exact h.active
  · show s.stack.next + 1 = _
    rw [h.next, List.length_append, List.length_singleton]
  · show s.stack.root.or _ = _
    rw [h.root]
    cases made <;> rfl
  · intro ref hactive
    cases hactive
    exact List.mem_append_right _ (List.mem_singleton_self _)

end ScopeStack.InOrder

namespace Stacks

/-! ## What every step keeps -/

/-- Every stack is in order, and every scope of the store is of one stack. -/
structure Sound (c : Stacks) : Prop where
  each : ∀ who, (c.stack who).InOrder c.store (c.made who)
  owned : ∀ ref, ref < c.store.scopes.size → ∃ who, ref ∈ c.made who
  apart : ∀ who other ref, ref ∈ c.made who → ref ∈ c.made other → who = other

theorem stack_after (c : Stacks) (who : Nat) (s : Pass) : (c.after who s).stack who = s.stack :=
  Function.update_self _ _ _

theorem stack_after_of_ne (c : Stacks) {who other : Nat} (s : Pass) (h : other ≠ who) :
    (c.after who s).stack other = c.stack other :=
  Function.update_of_ne h _ _

theorem made_after_of_ne (c : Stacks) {who other : Nat} (s : Pass) (h : other ≠ who) :
    (c.after who s).made other = c.made other :=
  Function.update_of_ne h _ _

theorem made_after (c : Stacks) (who : Nat) (s : Pass) : (c.after who s).made who
    = c.made who ++ List.range' c.store.scopes.size (s.store.scopes.size - c.store.scopes.size) :=
  Function.update_self _ _ _

/-- No scope was opened. -/
theorem made_after_same (c : Stacks) (who : Nat) {s : Pass}
    (h : s.store.scopes.size = c.store.scopes.size) : (c.after who s).made who = c.made who := by
  rw [made_after, h, Nat.sub_self, List.range'_zero, List.append_nil]

/-- One scope was opened. -/
theorem made_after_succ (c : Stacks) (who : Nat) {s : Pass}
    (h : s.store.scopes.size = c.store.scopes.size + 1) :
    (c.after who s).made who = c.made who ++ [c.store.scopes.size] := by
  rw [made_after, h, Nat.add_sub_cancel_left, List.range'_one]

theorem after_self {c : Stacks} {who : Nat} {s : Pass} (hstore : s.store = c.store)
    (hstack : s.stack = c.stack who) : c.after who s = c := by
  simp [after, hstore, hstack]

/-- Two things done with one stack are one. -/
theorem after_after (c : Stacks) (who : Nat) {s t : Pass}
    (h : c.store.scopes.size ≤ s.store.scopes.size)
    (h' : s.store.scopes.size ≤ t.store.scopes.size) :
    (c.after who s).after who t = c.after who t := by
  obtain ⟨m, hm⟩ := Nat.exists_eq_add_of_le h
  obtain ⟨n, hn⟩ := Nat.exists_eq_add_of_le h'
  have hleft : s.store.scopes.size - c.store.scopes.size = m := by omega
  have hright : t.store.scopes.size - s.store.scopes.size = n := by omega
  have hboth : t.store.scopes.size - c.store.scopes.size = m + n := by omega
  simp only [after, Function.update_idem, Function.update_self, hleft, hright, hboth]
  rw [hm, List.append_assoc, List.range'_append_1]

namespace Sound

variable {c : Stacks}

theorem start : ({} : Stacks).Sound where
  each _ := .new _
  owned _ h := absurd h (Nat.not_lt_zero _)
  apart _ _ _ h := nomatch h

/-- Whoever has a scope around it is there, and is of some stack. -/
theorem owner_of_parent (h : c.Sound) {ref parent : ScopeRef}
    (hp : (c.store.scope ref).parent = some parent) :
    ∃ who, ref ∈ c.made who ∧ parent ∈ c.made who ∧ parent < ref := by
  have hlt : ref < c.store.scopes.size := by
    refine Nat.lt_of_not_le fun hle => ?_
    rw [c.store.parent_of_size_le hle] at hp
    cases hp
  obtain ⟨who, hm⟩ := h.owned ref hlt
  exact ⟨who, hm, (h.each who).opened.parent_mem hm hp⟩

theorem descends (h : c.Sound) : c.store.Descends := by
  intro ref parent hp
  obtain ⟨-, -, -, hlt⟩ := h.owner_of_parent hp
  exact hlt

/-- A scope inside one of a stack's scopes is one of the stack's. -/
theorem mem_of_parent (h : c.Sound) {who : Nat} {ref parent : ScopeRef} (hm : parent ∈ c.made who)
    (hp : (c.store.scope ref).parent = some parent) : ref ∈ c.made who := by
  obtain ⟨other, href, hparent, -⟩ := h.owner_of_parent hp
  rw [h.apart who other parent hm hparent]
  exact href

/-- It is enough that the stack with which something was done is in order. The scopes that came to the
store are its own. -/
theorem after_of (h : c.Sound) {who : Nat} {t : Pass} (hkeeps : c.store.Keeps t.store)
    (hself : t.stack.InOrder t.store ((c.after who t).made who)) : (c.after who t).Sound := by
  have hother : ∀ other, other ≠ who → (c.after who t).made other = c.made other :=
    fun other hne => c.made_after_of_ne t hne
  have hwho : ∀ ref, ref ∈ (c.after who t).made who ↔
      ref ∈ c.made who ∨ c.store.scopes.size ≤ ref ∧ ref < t.store.scopes.size := by
    intro ref
    have hend : c.store.scopes.size + (t.store.scopes.size - c.store.scopes.size)
        = t.store.scopes.size := Nat.add_sub_cancel' hkeeps.size
    rw [made_after, List.mem_append, List.mem_range'_1, hend]
  -- what was made before lies below the old size, and what is new above it
  have hold : ∀ other ref, ref ∈ c.made other → ref < c.store.scopes.size :=
    fun other => (h.each other).opened.lt_size
  refine ⟨?_, ?_, ?_⟩
  · intro other
    by_cases hne : other = who
    · subst hne
      rw [stack_after]
      exact hself
    · rw [hother other hne, stack_after_of_ne c t hne]
      exact (h.each other).keeps hkeeps
  · intro ref hlt
    by_cases hnew : c.store.scopes.size ≤ ref
    · exact ⟨who, (hwho ref).mpr (.inr ⟨hnew, hlt⟩)⟩
    · obtain ⟨other, hm⟩ := h.owned ref (Nat.lt_of_not_le hnew)
      by_cases hne : other = who
      · exact ⟨who, (hwho ref).mpr (.inl (hne ▸ hm))⟩
      · exact ⟨other, by rwa [hother other hne]⟩
  · -- A new scope is not among those of another stack, which were there before.
    have hcross : ∀ other, other ≠ who → ∀ ref, ref ∈ (c.after who t).made who →
        ref ∉ (c.after who t).made other := by
      intro other hne ref hm hm'
      rw [hother other hne] at hm'
      rcases (hwho ref).mp hm with hm | ⟨hnew, -⟩
      · exact hne (h.apart other who ref hm' hm)
      · exact absurd (hold other ref hm') (Nat.not_lt.mpr hnew)
    intro one two ref hone htwo
    by_cases h1 : one = who
    · subst h1
      by_contra hne
      exact hcross two (Ne.symm hne) ref hone htwo
    · by_cases h2 : two = who
      · subst h2
        exact absurd hone (hcross one h1 ref htwo)
      · rw [hother one h1] at hone
        rw [hother two h2] at htwo
        exact h.apart one two ref hone htwo

/-- **Whatever change is made with one of the stacks**, all of them stay in order. -/
theorem alters (h : c.Sound) {who : Nat} {s t : Pass} (hstore : s.store = c.store)
    (hstack : s.stack = c.stack who) {room : Symbol → Prop} (halters : Pass.Alters room s t) :
    (c.after who t).Sound := by
  have hkeeps : c.store.Keeps t.store := hstore ▸ halters.keeps
  have hbefore : s.stack.InOrder s.store (c.made who) := by
    rw [hstore, hstack]
    exact h.each who
  refine h.after_of hkeeps ?_
  have hstill : t.store.scopes.size = s.store.scopes.size →
      (c.after who t).made who = c.made who :=
    fun hsize => c.made_after_same who (hsize.trans (by rw [hstore]))
  rcases halters with hchange | hmove
  · have hsame := hchange.sameScopes
    rw [hstill hsame.size, hsame.stack]
    exact hbefore.keeps hsame.keeps
  · cases hmove with
    | opening =>
      have hsize : s.entering.store.scopes.size = s.store.scopes.size + 1 := Store.size_addScope _ _
      rw [hstore] at hsize
      rw [c.made_after_succ who hsize, ← hstore]
      exact hbefore.entering
    | leaving scope active =>
      rw [hstill rfl]
      refine ⟨hbefore.opened, hbefore.next, hbefore.root, fun ref hparent => ?_⟩
      exact (hbefore.opened.parent_mem (hbefore.active scope active) hparent).1
    | entering scope active parent =>
      rw [hstill rfl]
      refine ⟨hbefore.opened, hbefore.next, hbefore.root, ?_⟩
      rintro _ ⟨⟩
      -- The scope around it is active, so both are of this stack.
      obtain ⟨around, haround⟩ := Option.isSome_iff_exists.mp active
      rw [haround, hstore] at parent
      exact h.mem_of_parent (hbefore.active around haround) parent
    | resetting root known =>
      rw [hstill rfl]
      refine ⟨hbefore.opened, hbefore.next, hbefore.root, ?_⟩
      rintro _ ⟨⟩
      rw [hbefore.root] at known
      exact List.mem_of_head? known
    | recording node scope empty =>
      rw [hstill rfl]
      exact hbefore.keeps ⟨Nat.le_refl _, fun _ _ => rfl, fun _ _ => rfl⟩

theorem alters_run (h : c.Sound) {who : Nat} {s t : Pass} (hstore : s.store = c.store)
    (hstack : s.stack = c.stack who) {room : Symbol → Prop}
    (halters : Relation.ReflTransGen (Pass.Alters room) s t) : (c.after who t).Sound := by
  induction halters with
  | refl =>
    rw [after_self hstore hstack]
    exact h
  | @tail u t hbefore hlast ih =>
    have hsize : c.store.scopes.size ≤ u.store.scopes.size :=
      hstore ▸ (Pass.keeps_of_alters hbefore).size
    rw [← c.after_after who hsize hlast.keeps.size]
    exact ih.alters rfl (stack_after c who u).symm hlast

theorem annotate (h : c.Sound) (notes : Annotations) :
    Sound { c with store := c.store.annotate notes } where
  each who := (h.each who).keeps ⟨Nat.le_refl _, fun _ _ => rfl, fun _ _ => rfl⟩
  owned := h.owned
  apart := h.apart

theorem step {d : Stacks} (h : c.Sound) (hstep : c.Step d) : d.Sound := by
  cases hstep with
  | operate who s op hstore hstack hrefers =>
    exact h.alters_run hstore hstack (Operation.alters hrefers)
  | annotate notes => exact h.annotate notes
  | analyze who p hstack =>
    -- Before a check the cells of the program are cleared.
    have hclear := h.annotate (c.store.notes.clear p)
    exact hclear.alters_run (s := c.store.checking p) rfl hstack.symm (Pass.takes_check p _)

/-- **Stacks are in order in every state that can come about.** -/
theorem of_reachable (h : c.Reachable) : c.Sound := by
  induction h with
  | refl => exact start
  | tail _ hlast ih => exact ih.step hlast

end Sound

end Stacks

/-! ## Moving between scopes -/

/-- Whether the operation opens a scope or moves to another one, or asks for the active one. -/
def Operation.isMove : Operation → Bool
  | createScope => true
  | enterScope _ => true
  | leaveScope => true
  | activeScope => true
  | resetScope => true
  | _ => false

namespace Pass

theorem createScope_run (s : Pass) : createScope.run s = .ok s.store.scopes.size
    (s.entering.logged
      (s.log.push (.scopeCreated s.stack.next (s.stack.active.map s.store.scopeId)))) := rfl

variable {α : Type}

/-- The step changed nothing but the stack and the log. If it failed, it changed nothing. -/
def Stays (s : Pass) : EStateM.Result InternalError Pass α → Prop
  | .ok _ t => t = { s with stack := t.stack, log := t.log }
  | .error _ t => t = s

theorem Stays.after_eq {s : Pass} {r : EStateM.Result InternalError Pass α} (h : s.Stays r) :
    ∃ stack log, Pass.after r = { s with stack, log } := by
  cases r with
  | ok a t => exact ⟨t.stack, t.log, h⟩
  | error e t => exact ⟨s.stack, s.log, h⟩

theorem Stays.discard {s : Pass} {x : PassM α} (h : s.Stays (x.run s)) :
    s.Stays ((discard x : PassM Unit).run s) := by
  show s.Stays ((x >>= fun _ => pure ()).run s)
  rw [EStateM.run_bind]
  generalize x.run s = r at h ⊢
  cases r with
  | ok a t => exact h
  | error e t => exact h

/-- A step that looks at the state first is settled for the state that is there. -/
theorem Stays.look {s : Pass} {f : Pass → PassM α} (h : s.Stays ((f s).run s)) :
    s.Stays ((get >>= f).run s) := h

theorem stays_enterScope (s : Pass) (ref : ScopeRef) : s.Stays ((enterScope ref).run s) := by
  unfold enterScope
  apply Stays.look
  dsimp only
  split <;> rfl

theorem stays_leaveScope (s : Pass) : s.Stays (leaveScope.run s) := by
  unfold leaveScope
  apply Stays.look
  dsimp only
  split <;> rfl

theorem stays_activeScope (s : Pass) : s.Stays (activeScope.run s) := by
  unfold activeScope
  apply Stays.look
  split <;> rfl

theorem stays_resetScope (s : Pass) : s.Stays (resetScope.run s) := by
  unfold resetScope
  apply Stays.look
  dsimp only
  split <;> rfl

end Pass

theorem Operation.stays {op : Operation} (s : Pass) (hmove : op.isMove = true)
    (hopens : op ≠ .createScope) : s.Stays (op.run.run s) := by
  cases op with
  | createScope => exact absurd rfl hopens
  | enterScope scope => exact s.stays_enterScope scope
  | leaveScope => exact s.stays_leaveScope.discard
  | activeScope => exact s.stays_activeScope.discard
  | resetScope => exact s.stays_resetScope.discard
  | _ => cases hmove

theorem Operation.apply_eq_of_isMove {op : Operation} (s : Pass) (hmove : op.isMove = true)
    (hopens : op ≠ .createScope) : ∃ stack log, op.apply s = { s with stack, log } :=
  (op.stays s hmove hopens).after_eq

/-- **A move that fails has not been made.** -/
theorem Operation.eq_of_error {op : Operation} {s t : Pass} {e : InternalError}
    (hmove : op.isMove = true) (hrun : op.run.run s = .error e t) : t = s := by
  by_cases hopens : op = .createScope
  · subst hopens
    cases hrun
  · have hstays := op.stays s hmove hopens
    rw [hrun] at hstays
    exact hstays

/-! ## Following the links -/

namespace Store

/-- The scopes that somebody comes by who follows the links until there is none left. -/
inductive Outward (store : Store) : ScopeRef → List ScopeRef → Prop
  | last {ref : ScopeRef} : (store.scope ref).parent = none → Outward store ref [ref]
  | next {ref parent : ScopeRef} {outer : List ScopeRef} : (store.scope ref).parent = some parent →
      Outward store parent outer → Outward store ref (ref :: outer)

theorem Descends.outward {store : Store} (h : store.Descends) (ref : ScopeRef) :
    store.Outward ref (store.chain ref) := by
  induction ref using Nat.strongRecOn with
  | _ ref ih =>
    rw [chain, chainUpTo]
    cases hparent : (store.scope ref).parent with
    | none => exact .last hparent
    | some parent =>
      have hlt := h ref parent hparent
      have hrest := chainUpTo_eq_chain h ref parent hlt
      dsimp only
      rw [hrest]
      exact .next hparent (ih parent hlt)

end Store

namespace Stacks

/-- **Whatever was done with any number of stacks in one store**, calls that failed included: the scopes
that a stack opened are numbered as they were opened, each lies inside an earlier one or inside none, the
first one is the root, and the active one is among them. To open a scope is to add it to them, and other
moves add nothing. A move that fails changes nothing. Following links ends, whichever scope one begins
at, and the search for a name finds the nearest binding on the way. -/
theorem scopes_stay_in_order {c : Stacks} (h : c.Reachable) (who : Nat) :
    (∀ before ref rest, c.made who = before ++ ref :: rest → ref < c.store.scopes.size ∧
      (c.store.scope ref).id = before.length ∧
      ∀ parent, (c.store.scope ref).parent = some parent → parent ∈ before) ∧
    (c.stack who).next = (c.made who).length ∧
    (c.stack who).root = (c.made who).head? ∧
    (∀ root, (c.stack who).root = some root →
      (c.store.scope root).id = 0 ∧ (c.store.scope root).parent = none) ∧
    (∀ ref, (c.stack who).active = some ref → ref ∈ c.made who) ∧
    (∀ s : Pass, s.store = c.store → s.stack = c.stack who →
      (∃ ref t, Pass.createScope.run s = .ok ref t ∧
        (c.after who t).made who = c.made who ++ [ref]) ∧
      ∀ op : Operation, op.isMove = true →
        (op ≠ .createScope → (c.after who (op.apply s)).made who = c.made who) ∧
        ∀ e t, op.run.run s = .error e t → t = s) ∧
    ∀ ref, ∃ way, c.store.Outward ref way ∧ ∀ name,
      (∀ symbol, c.store.find? ref name = some symbol ↔
        ∃ inner nearest outer, way = inner ++ nearest :: outer ∧
          c.store.findLocal? nearest name = some symbol ∧
          ∀ r ∈ inner, c.store.findLocal? r name = none) ∧
      (c.store.find? ref name = none ↔ ∀ r ∈ way, c.store.findLocal? r name = none) := by
  have hsound := Sound.of_reachable h
  have horder := hsound.each who
  refine ⟨?_, horder.next, horder.root, ?_, horder.active, ?_, ?_⟩
  · intro before ref rest hsplit
    obtain ⟨hid, hparent⟩ := horder.opened.split hsplit
    exact ⟨horder.opened.lt_size ref (by simp [hsplit]), hid, hparent⟩
  · intro root hroot
    -- Nothing was opened before the root.
    obtain ⟨rest, hmade⟩ := List.head?_eq_some_iff.mp (horder.root.symm.trans hroot)
    have hsplit : c.made who = [] ++ root :: rest := hmade
    obtain ⟨hid, hnone⟩ := horder.opened.split hsplit
    refine ⟨hid, ?_⟩
    cases hparent : (c.store.scope root).parent with
    | none => rfl
    | some parent => exact nomatch hnone parent hparent
  · intro s hstore hstack
    refine ⟨⟨_, _, Pass.createScope_run s, ?_⟩, fun op hmove => ⟨?_, ?_⟩⟩
    · rw [hstore]
      refine c.made_after_succ who ?_
      rw [← hstore]
      exact Store.size_addScope _ _
    · intro hopens
      obtain ⟨stack, log, hafter⟩ := op.apply_eq_of_isMove s hmove hopens
      exact c.made_after_same who (by rw [hafter, hstore])
    · exact fun e t => Operation.eq_of_error hmove
  · intro ref
    exact ⟨_, hsound.descends.outward ref, fun name =>
      ⟨fun symbol => List.findSome?_eq_some_iff, List.findSome?_eq_none_iff⟩⟩

/-- The store and the stacks after one of them tried something. -/
def trying (c : Stacks) (who : Nat) (op : Operation) : Stacks :=
  c.after who (op.apply { store := c.store, stack := c.stack who })

theorem Reachable.trying {c : Stacks} (h : c.Reachable) (who : Nat) (op : Operation)
    (hrefers : op.Refers c.store) : (c.trying who op).Reachable :=
  h.tail (.operate c who _ op rfl rfl hrefers)

/-- One stack opens two scopes, leaves both and opens a third one, which lies inside none. It cannot
enter the scope that another stack opened meanwhile. -/
def visitors : Stacks :=
  ((((((({} : Stacks).trying 0 .createScope).trying 0 .createScope).trying 1 .createScope).trying 0
    .leaveScope).trying 0 .leaveScope).trying 0 .createScope).trying 0 (.enterScope 2)

theorem visitors_stay_in_order : visitors.Reachable ∧ visitors.made 0 = [0, 1, 3] ∧
    (visitors.store.scope 3).id = 2 ∧
    (∀ parent, (visitors.store.scope 3).parent = some parent → parent ∈ [0, 1]) ∧
    (visitors.stack 0).root = some 0 ∧
    ∃ way, visitors.store.Outward 1 way ∧
      (visitors.store.find? 1 "x" = none ↔ ∀ r ∈ way, visitors.store.findLocal? r "x" = none) := by
  have hreach : visitors.Reachable :=
    ((((((Reachable.trying .refl 0 .createScope trivial).trying 0 .createScope trivial).trying 1
      .createScope trivial).trying 0 .leaveScope trivial).trying 0 .leaveScope trivial).trying 0
      .createScope trivial).trying 0 (.enterScope 2) trivial
  have hmade : visitors.made 0 = [0, 1, 3] := by decide +kernel
  obtain ⟨hscopes, -, hroot, -, -, -, hways⟩ := scopes_stay_in_order hreach 0
  obtain ⟨-, hid, hparent⟩ := hscopes [0, 1] 3 [] hmade
  obtain ⟨way, hway, hfind⟩ := hways 1
  exact ⟨hreach, hmade, hid, hparent, hroot.trans (congrArg List.head? hmade), way, hway,
    (hfind "x").2⟩

end Stacks

end Semant
