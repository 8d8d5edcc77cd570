import Semant.Proofs.Analyses
import Semant.Proofs.Bindings

/-!
# Working with scopes and symbols by hand

Scopes and symbols are not only made by analyses. Somebody may open and leave scopes, make symbols and
bind them, declare nodes of a tree out of order, write into cells, and analyse and dump trees in
between, with several stacks of scopes in one store. `Reached` says which stores and stacks can come
about in this way; it leaves nothing out but references to symbols that do not exist.

However wild the history, some things hold of every store and stack (`Sound`): each scope binds its
symbols under their own names, in the order of the names, and the first scope that a stack opened lies
inside no other.
-/

set_option autoImplicit false

namespace Semant

/-- What can be done in a store with a stack of scopes. -/
inductive Operation where
  | createScope
  | enterScope (scope : ScopeRef)
  | leaveScope
  | activeScope
  | resetScope
  | makeData (decl : Decl) (type : Ty)
  | makeParam (decl : Decl) (type : Ty)
  | makeFunction (f : Function) (returns : Ty)
  | bind (scope : ScopeRef) (symbol : SymbolRef)
  | declareData (decl : Decl)
  | declareParam (decl : Decl)
  | declareFunction (f : Function)
  | finishSignature (f : Function)
  | lookup (scope : ScopeRef) (name : Identifier) (use : Use)
  | reference (symbol : SymbolRef)
  | markInit (symbol : SymbolRef)
  | signSymbol (symbol : SymbolRef) (signature : Signature) (subject : Subject)
  | dump (p : Program)

namespace Operation

/-- The operation as a step of a pass. -/
def run : Operation → PassM Unit
  | createScope => discard Pass.createScope
  | enterScope scope => Pass.enterScope scope
  | leaveScope => discard Pass.leaveScope
  | activeScope => discard Pass.activeScope
  | resetScope => discard Pass.resetScope
  | makeData decl type => discard (Pass.makeSymbol (.ofData decl type))
  | makeParam decl type => discard (Pass.makeSymbol (.ofParam decl type))
  | makeFunction f returns => discard (Pass.makeSymbol (.ofFunction f returns))
  | bind scope symbol => discard (Pass.bind scope symbol)
  | declareData decl => discard (Pass.declareData decl)
  | declareParam decl => discard (Pass.declareParam decl)
  | declareFunction f => discard (Pass.declareFunction f)
  | finishSignature f => Pass.finishSignature f
  | lookup scope name use => discard (Pass.lookup scope name use)
  | reference symbol => discard (Pass.reference symbol)
  | markInit symbol => Pass.markInit symbol
  | signSymbol symbol signature subject => Pass.signSymbol symbol signature subject
  | dump p => discard (Pass.dump p)

/-- A symbol that is to be bound has to be there. -/
def Refers (store : Store) : Operation → Prop
  | bind _ symbol => symbol < store.symbols.size
  | _ => True

/-- The state after an operation, whether it went through or not. -/
def apply (op : Operation) (s : Pass) : Pass := Pass.after (op.run.run s)

end Operation

/-- Stores and stacks that can come about. Operations may fail, and what they did until then stays
done. -/
inductive Reached : Store → ScopeStack → Prop
  | nothing : Reached {} {}
  /-- Another stack is begun in the same store. -/
  | begin {store : Store} {stack : ScopeStack} : Reached store stack → Reached store {}
  | operate {s : Pass} (op : Operation) : Reached s.store s.stack → op.Refers s.store →
      Reached (op.apply s).store (op.apply s).stack
  /-- Something is done with another stack of the same store. -/
  | meanwhile {s : Pass} {stack : ScopeStack} (op : Operation) : Reached s.store stack →
      Reached s.store s.stack → op.Refers s.store → Reached (op.apply s).store stack
  /-- Cells are written by hand. -/
  | annotate {store : Store} {stack : ScopeStack} (notes : Annotations) : Reached store stack →
      Reached (store.annotate notes) stack
  | analyze {store : Store} {stack : ScopeStack} (p : Program) : Reached store stack →
      Reached (store.analyze p).2 stack
  /-- The stack of an analysis that went through. -/
  | analysis {store after : Store} {stack : ScopeStack} {p : Program} {a : Analysis} :
      Reached store stack → store.analyze p = (.ok a, after) → Reached after a.stack

/-! ## Dumps -/

namespace Pass

section Dump

variable {α β : Type} {room : Symbol → Prop}

/-- What a step of a dump does to the state of the pass is made of such changes. -/
def TakesDump (room : Symbol → Prop) (x : DumpM α) : Prop :=
  ∀ text, Takes (Alters room) (x.run text)

theorem TakesDump.lift {x : PassM α} (h : Takes (Alters room) x) : TakesDump room (liftM x : DumpM α) :=
  fun text => h.bind fun a => .value (a, text)

theorem TakesDump.value (a : α) : TakesDump room (pure a : DumpM α) := fun text => .value (a, text)

theorem TakesDump.bind {x : DumpM α} {f : α → DumpM β} (hx : TakesDump room x)
    (hf : ∀ a, TakesDump room (f a)) : TakesDump room (x >>= f) :=
  fun text => (hx text).bind fun r => hf r.1 r.2

theorem TakesDump.forM {γ : Type} {f : γ → DumpM Unit} (h : ∀ c, TakesDump room (f c)) :
    ∀ cs : List γ, TakesDump room (forM cs f : DumpM PUnit)
  | [] => .value _
  | c :: rest => by
    rw [List.forM_cons]
    exact (h c).bind fun _ => TakesDump.forM h rest

theorem TakesDump.ask : TakesDump room (getThe Pass : DumpM Pass) := fun _ _ => .refl

theorem takes_dumpScope (ref : ScopeRef) : TakesDump room (dumpScope ref) := by
  have hline : ∀ line, TakesDump room (dumpLine line) := by
    intro line
    have hnote : Takes (Alters room) (note (.dumped line)) := (takes_note _).mono fun _ _ => .inl
    exact (TakesDump.lift hnote).bind fun _ text => .value ((), text ++ line ++ "\n")
  unfold dumpScope
  refine TakesDump.ask.bind fun s => ?_
  dsimp only
  split
  · exact .value ()
  · exact (hline _).bind fun _ => TakesDump.forM (fun _ => hline _) _

theorem takes_dumpNode (node : NodeId) (subject : Subject) : TakesDump room (dumpNode node subject) := by
  unfold dumpNode
  refine TakesDump.ask.bind fun s => ?_
  cases s.store.notes.scopes.get node with
  | none => exact fun text => .fail _
  | some ref => exact (TakesDump.lift (takes_enterScope ref)).bind fun _ => takes_dumpScope ref

theorem takes_dumpVisit (event : Event) : TakesDump room (dumpVisit event) := by
  cases event with
  | enterProgram p =>
    refine (TakesDump.lift takes_resetScope).bind fun root => TakesDump.ask.bind fun s => ?_
    dsimp only
    cases s.store.notes.scopes.get p.id with
    | none => exact fun text => .fail _
    | some ref =>
      dsimp only
      split
      · exact takes_dumpScope root
      · exact fun text => .fail _
  | enterFunction f => exact takes_dumpNode _ _
  | enterBlock b => exact takes_dumpNode _ _
  | exitProgram p => exact (TakesDump.lift takes_leaveScope).bind fun _ => .value ()
  | exitFunction f => exact (TakesDump.lift takes_leaveScope).bind fun _ => .value ()
  | exitBlock b => exact (TakesDump.lift takes_leaveScope).bind fun _ => .value ()
  | _ => exact .value ()

theorem takes_dump (p : Program) : Takes (Alters room) (dump p) := by
  unfold dump
  rw [Program.walk_eq_forM]
  exact (TakesDump.forM takes_dumpVisit p.events "").bind fun _ => .value _

end Dump

end Pass

/-! ## Operations are made of changes -/

theorem Operation.alters {s : Pass} {op : Operation} (h : op.Refers s.store) :
    Relation.ReflTransGen (Pass.Alters Symbol.HasRoom) s (op.apply s) := by
  have hstill : ∀ {α : Type} {x : PassM α}, Pass.Takes (Pass.Change Symbol.HasRoom) x →
      Pass.Takes (Pass.Alters Symbol.HasRoom) x :=
    fun hx => hx.mono fun _ _ => .inl
  have hdrop : ∀ {α : Type} {x : PassM α}, Pass.Takes (Pass.Alters Symbol.HasRoom) x →
      Pass.Takes (Pass.Alters Symbol.HasRoom) (discard x) :=
    fun hx => hx.bind fun _ => .value ()
  cases op with
  | createScope => exact hdrop Pass.takes_createScope s
  | enterScope scope => exact Pass.takes_enterScope scope s
  | leaveScope => exact hdrop Pass.takes_leaveScope s
  | activeScope => exact hdrop (hstill Pass.takes_activeScope) s
  | resetScope => exact hdrop Pass.takes_resetScope s
  | makeData decl type => exact hdrop (hstill (Pass.takes_makeSymbol _)) s
  | makeParam decl type => exact hdrop (hstill (Pass.takes_makeSymbol _)) s
  | makeFunction f returns => exact hdrop (hstill (Pass.takes_makeSymbol _)) s
  | bind scope symbol =>
    have hbind := (Pass.takes_bind scope h).lift (p := Pass.Alters Symbol.HasRoom) id fun _ _ => .inl
    exact Pass.Takes.follow hbind fun _ _ _ => .refl
  | declareData decl => exact hdrop (hstill (Pass.takes_declareData decl)) s
  | declareParam decl => exact hdrop (hstill (Pass.takes_declareParam decl)) s
  | declareFunction f => exact hdrop (hstill (Pass.takes_declareFunction f)) s
  | finishSignature f => exact hstill (Pass.takes_finishSignature f) s
  | lookup scope name use => exact hdrop (hstill (Pass.takes_lookup scope name use)) s
  | reference symbol => exact hdrop (hstill (Pass.takes_reference symbol)) s
  | markInit symbol => exact hstill (Pass.takes_markInit symbol) s
  | signSymbol symbol signature subject => exact hstill (Pass.takes_signSymbol _ _ _) s
  | dump p => exact hdrop (Pass.takes_dump p) s

/-- The state that an analysis ends in, whether it goes through or not. -/
theorem Store.analyze_alters (store : Store) (p : Program) :
    ∃ s, Relation.ReflTransGen (Pass.Alters Symbol.Any) (store.checking p) s ∧
      (store.analyze p).2 = s.store ∧ ∀ a, (store.analyze p).1 = .ok a → a.stack = s.stack := by
  refine ⟨_, Pass.takes_check p (store.checking p), ?_⟩
  rw [store.analyze_eq]
  cases (Pass.check p).run (store.checking p) with
  | ok u s =>
    refine ⟨rfl, ?_⟩
    rintro _ ⟨⟩
    rfl
  | error e s => exact ⟨rfl, fun a ha => nomatch ha⟩

/-! ## What every history keeps -/

/-- The scopes of a store are still there, with their numbers and links. They may bind more. -/
structure Store.Keeps (store after : Store) : Prop where
  size : store.scopes.size ≤ after.scopes.size
  id : ∀ ref, ref < store.scopes.size → (after.scope ref).id = (store.scope ref).id
  parent : ∀ ref, ref < store.scopes.size → (after.scope ref).parent = (store.scope ref).parent

theorem Store.Keeps.refl (store : Store) : store.Keeps store :=
  ⟨Nat.le_refl _, fun _ _ => rfl, fun _ _ => rfl⟩

theorem Store.Keeps.trans {a b c : Store} (h : a.Keeps b) (h' : b.Keeps c) : a.Keeps c where
  size := Nat.le_trans h.size h'.size
  id ref hr := (h'.id ref (Nat.lt_of_lt_of_le hr h.size)).trans (h.id ref hr)
  parent ref hr := (h'.parent ref (Nat.lt_of_lt_of_le hr h.size)).trans (h.parent ref hr)

/-- Scopes bind symbols that are there, under their own names and in the order of the names. -/
structure Store.Proper (store : Store) : Prop where
  tidy : store.Tidy
  bound : ∀ scope name ref, (name, ref) ∈ (store.scope scope).bindings → ref < store.symbols.size
  named : ∀ scope name ref, (name, ref) ∈ (store.scope scope).bindings →
    (store.symbol ref).name = name

/-- The first scope that a stack opened is there and lies inside no other. Before it was opened no
scope was active. -/
structure ScopeStack.Rooted (stack : ScopeStack) (store : Store) : Prop where
  idle : stack.root = none → stack.active = none
  known : ∀ root, stack.root = some root → root < store.scopes.size
  outermost : ∀ root, stack.root = some root → (store.scope root).parent = none

theorem ScopeStack.Rooted.keeps {stack : ScopeStack} {store after : Store}
    (h : stack.Rooted store) (hk : store.Keeps after) : stack.Rooted after where
  idle := h.idle
  known root hr := Nat.lt_of_lt_of_le (h.known root hr) hk.size
  outermost root hr := (hk.parent root (h.known root hr)).trans (h.outermost root hr)

namespace Pass

variable {room : Symbol → Prop}

/-- Changes other than moves have no influence on which scopes there are, how they lie inside each
other, which nodes have them and which of them is active. -/
structure SameScopes (s t : Pass) : Prop where
  stack : t.stack = s.stack
  size : t.store.scopes.size = s.store.scopes.size
  id : ∀ ref, (t.store.scope ref).id = (s.store.scope ref).id
  parent : ∀ ref, (t.store.scope ref).parent = (s.store.scope ref).parent
  recorded : t.store.notes.scopes = s.store.notes.scopes

theorem SameScopes.refl (s : Pass) : SameScopes s s :=
  ⟨rfl, rfl, fun _ => rfl, fun _ => rfl, rfl⟩

theorem SameScopes.logged (s : Pass) (log : Array LogEntry) : SameScopes s (s.logged log) :=
  ⟨rfl, rfl, fun _ => rfl, fun _ => rfl, rfl⟩

theorem SameScopes.inside (s : Pass) (function : Option Function) :
    SameScopes s (s.inside function) :=
  ⟨rfl, rfl, fun _ => rfl, fun _ => rfl, rfl⟩

theorem SameScopes.trans {s t u : Pass} (h : SameScopes s t) (h' : SameScopes t u) :
    SameScopes s u where
  stack := h'.stack.trans h.stack
  size := h'.size.trans h.size
  id ref := (h'.id ref).trans (h.id ref)
  parent ref := (h'.parent ref).trans (h.parent ref)
  recorded := h'.recorded.trans h.recorded

theorem SameScopes.keeps {s t : Pass} (h : SameScopes s t) : s.store.Keeps t.store :=
  ⟨Nat.le_of_eq h.size.symm, fun ref _ => h.id ref, fun ref _ => h.parent ref⟩

theorem Change.sameScopes {s t : Pass} (h : Change room s t) : SameScopes s t := by
  cases h with
  | binding scope ref there free =>
    exact ⟨rfl, Store.size_bindIn _ _ _, fun r => Store.id_bindIn _ _ r _,
      fun r => Store.parent_bindIn _ _ r _, rfl⟩
  | noting notes scopes retained => exact ⟨rfl, rfl, fun _ => rfl, fun _ => rfl, scopes⟩
  | _ => exact ⟨rfl, rfl, fun _ => rfl, fun _ => rfl, rfl⟩

theorem SameScopes.of_changes {s t : Pass} (h : Relation.ReflTransGen (Change room) s t) :
    SameScopes s t := by
  induction h with
  | refl => exact .refl s
  | tail _ hlast ih => exact ih.trans hlast.sameScopes

theorem Move.keeps {s t : Pass} (h : Move s t) : s.store.Keeps t.store := by
  cases h with
  | opening =>
    have hscope : ∀ ref, ref < s.store.scopes.size →
        s.entering.store.scope ref = s.store.scope ref := by
      intro ref hr
      exact (Store.scope_addScope _ _ ref).trans (if_neg (Nat.ne_of_lt hr))
    refine ⟨?_, fun ref hr => by rw [hscope ref hr], fun ref hr => by rw [hscope ref hr]⟩
    exact Nat.le_of_lt (Nat.lt_of_lt_of_eq (Nat.lt_succ_self _) (Store.size_addScope _ _).symm)
  | _ => exact ⟨Nat.le_refl _, fun _ _ => rfl, fun _ _ => rfl⟩

theorem Alters.keeps {s t : Pass} (h : Alters room s t) : s.store.Keeps t.store :=
  h.elim (fun hc => hc.sameScopes.keeps) Move.keeps

theorem keeps_of_alters {s t : Pass} (h : Relation.ReflTransGen (Alters room) s t) :
    s.store.Keeps t.store := by
  induction h with
  | refl => exact .refl _
  | tail _ hlast ih => exact ih.trans hlast.keeps

/-- A symbol that is changed keeps its name. -/
theorem proper_changing {s : Pass} (h : s.store.Proper) (ref : SymbolRef) {f : Symbol → Symbol}
    (hf : ∀ x, (f x).definition = x.definition) : (s.changing ref f).store.Proper where
  tidy := h.tidy
  bound scope name r hm := by
    rw [show (s.changing ref f).store.symbols.size = s.store.symbols.size from
      Store.size_modifySymbol _ _ _]
    exact h.bound scope name r hm
  named scope name r hm := by
    refine Eq.trans ?_ (h.named scope name r hm)
    show ((s.store.modifySymbol ref f).symbol r).name = _
    rw [Store.symbol_modifySymbol_eq]
    split
    · rw [Symbol.name_eq, Symbol.name_eq, hf]
    · rfl

theorem Change.proper {s t : Pass} (h : Change room s t) (hp : s.store.Proper) : t.store.Proper := by
  cases h with
  | adding symbol =>
    -- bindings lead below the new symbol
    have hlt : ∀ {scope name ref}, (name, ref) ∈ (s.store.scope scope).bindings →
        ref < s.store.symbols.size := fun hm => hp.bound _ _ _ hm
    refine ⟨hp.tidy, ?_, ?_⟩
    · intro scope name ref hm
      refine Nat.lt_of_lt_of_eq (Nat.lt_succ_of_lt (hlt hm)) ?_
      exact (Store.size_addSymbol _ _).symm
    · intro scope name ref hm
      refine Eq.trans ?_ (hp.named scope name ref hm)
      show ((s.store.addSymbol symbol).symbol ref).name = _
      rw [Store.symbol_addSymbol, if_neg (Nat.ne_of_lt (hlt hm))]
  | binding scope ref there free =>
    -- what is bound afterwards was bound before or is the new binding
    have hmem : ∀ {r name x}, (name, x) ∈ ((s.store.bindIn scope ref).scope r).bindings →
        (name = (s.store.symbol ref).name ∧ x = ref) ∨ (name, x) ∈ (s.store.scope r).bindings := by
      intro r name x hm
      rw [Store.scope_bindIn] at hm
      split at hm
      · exact (Bindings.mem_insert hm).imp_left Prod.mk.inj
      · exact .inr hm
    refine ⟨hp.tidy.bindIn scope ref, ?_, ?_⟩
    · intro r name x hm
      rcases hmem hm with ⟨-, rfl⟩ | hm
      · exact there
      · exact hp.bound r name x hm
    · intro r name x hm
      rcases hmem hm with ⟨rfl, rfl⟩ | hm
      · rfl
      · exact hp.named r name x hm
  | signing ref signature unsigned => exact proper_changing hp ref fun _ => rfl
  | initing ref => exact proper_changing hp ref fun _ => rfl
  | counting ref => exact proper_changing hp ref fun _ => rfl
  | _ => exact ⟨hp.tidy, hp.bound, hp.named⟩

theorem Move.proper {s t : Pass} (h : Move s t) (hp : s.store.Proper) : t.store.Proper := by
  cases h with
  | opening =>
    have hold : ∀ {ref x}, x ∈ (s.entering.store.scope ref).bindings →
        x ∈ (s.store.scope ref).bindings := by
      intro ref x hm
      rw [show s.entering.store.scope ref = _ from Store.scope_addScope _ _ ref] at hm
      split at hm
      · cases hm
      · exact hm
    exact ⟨hp.tidy.addScope List.Pairwise.nil,
      fun scope name ref hm => hp.bound scope name ref (hold hm),
      fun scope name ref hm => hp.named scope name ref (hold hm)⟩
  | _ => exact ⟨hp.tidy, hp.bound, hp.named⟩

theorem Move.rooted {s t : Pass} (h : Move s t) (hr : s.stack.Rooted s.store) :
    t.stack.Rooted t.store := by
  have hkeeps := h.keeps
  cases h with
  | opening =>
    cases hroot : s.stack.root with
    | some root =>
      have hsame : s.entering.stack.root = s.stack.root := by
        show s.stack.root.or _ = _
        rw [hroot]
        rfl
      have hold := hr.keeps hkeeps
      refine ⟨?_, fun r h => hold.known r (hsame ▸ h), fun r h => hold.outermost r (hsame ▸ h)⟩
      intro hnone
      rw [hsame, hroot] at hnone
      cases hnone
    | none =>
      -- The first scope of a stack is opened when none is active.
      have hfirst : s.entering.stack.root = some s.store.scopes.size := by
        show s.stack.root.or _ = _
        rw [hroot]
        rfl
      refine ⟨?_, ?_, ?_⟩
      · intro hnone
        rw [hfirst] at hnone
        cases hnone
      · intro r h
        cases hfirst.symm.trans h
        exact Nat.lt_of_lt_of_eq (Nat.lt_succ_self _) (Store.size_addScope _ _).symm
      · intro r h
        cases hfirst.symm.trans h
        rw [show s.entering.store.scope _ = _ from Store.scope_addScope _ _ _, if_pos rfl]
        exact hr.idle hroot
  | leaving scope active =>
    refine ⟨fun hnone => ?_, hr.known, hr.outermost⟩
    exact absurd (active.symm.trans (hr.idle hnone)) nofun
  | entering scope active parent =>
    refine ⟨fun hnone => ?_, hr.known, hr.outermost⟩
    rw [hr.idle hnone] at active
    cases active
  | resetting root known =>
    refine ⟨fun hnone => ?_, hr.known, hr.outermost⟩
    exact absurd (known.symm.trans hnone) nofun
  | recording node scope empty => exact ⟨hr.idle, hr.known, hr.outermost⟩

theorem Change.rooted {s t : Pass} (h : Change room s t) (hr : s.stack.Rooted s.store) :
    t.stack.Rooted t.store := by
  rw [h.sameScopes.stack]
  exact hr.keeps h.sameScopes.keeps

theorem proper_of_alters {s t : Pass} (h : Relation.ReflTransGen (Alters room) s t)
    (hp : s.store.Proper) : t.store.Proper :=
  invariant_of_alters (P := fun s => s.store.Proper) Change.proper Move.proper h hp

theorem rooted_of_alters {s t : Pass} (h : Relation.ReflTransGen (Alters room) s t)
    (hr : s.stack.Rooted s.store) : t.stack.Rooted t.store :=
  invariant_of_alters (P := fun s => s.stack.Rooted s.store) Change.rooted Move.rooted h hr

end Pass

theorem ScopeStack.Rooted.new (store : Store) : ({} : ScopeStack).Rooted store :=
  ⟨fun _ => rfl, fun _ h => absurd h nofun, fun _ h => absurd h nofun⟩

theorem Store.Keeps.analyze (store : Store) (p : Program) : store.Keeps (store.analyze p).2 := by
  obtain ⟨s, hs, hstore, -⟩ := store.analyze_alters p
  rw [hstore]
  have hkeeps := Pass.keeps_of_alters hs
  exact ⟨hkeeps.size, hkeeps.id, hkeeps.parent⟩

theorem Store.Proper.analyze {store : Store} (h : store.Proper) (p : Program) :
    (store.analyze p).2.Proper := by
  obtain ⟨s, hs, hstore, -⟩ := store.analyze_alters p
  rw [hstore]
  exact Pass.proper_of_alters hs ⟨h.tidy, h.bound, h.named⟩

/-- **Every history leaves stores and stacks in order.** -/
theorem Reached.sound {store : Store} {stack : ScopeStack} (h : Reached store stack) :
    store.Proper ∧ stack.Rooted store := by
  induction h with
  | nothing =>
    refine ⟨⟨fun _ => List.Pairwise.nil, ?_, ?_⟩, .new _⟩
    · exact fun _ _ _ hm => nomatch hm
    · exact fun _ _ _ hm => nomatch hm
  | begin _ ih => exact ⟨ih.1, .new _⟩
  | operate op _ href ih =>
    have hs := Operation.alters href
    exact ⟨Pass.proper_of_alters hs ih.1, Pass.rooted_of_alters hs ih.2⟩
  | meanwhile op _ _ href ih ihother =>
    have hs := Operation.alters href
    exact ⟨Pass.proper_of_alters hs ihother.1, ih.2.keeps (Pass.keeps_of_alters hs)⟩
  | annotate notes _ ih =>
    exact ⟨⟨ih.1.tidy, ih.1.bound, ih.1.named⟩, ih.2.idle, ih.2.known, ih.2.outermost⟩
  | analyze p _ ih => exact ⟨ih.1.analyze p, ih.2.keeps (.analyze _ p)⟩
  | @analysis store after stack p a _ hanalysis ih =>
    obtain ⟨s, hs, hstore, hstack⟩ := store.analyze_alters p
    have hafter : after = s.store := by rw [← hstore, hanalysis]
    have ha : a.stack = s.stack := hstack a (by rw [hanalysis])
    rw [hafter, ha]
    exact ⟨Pass.proper_of_alters hs ⟨ih.1.tidy, ih.1.bound, ih.1.named⟩,
      Pass.rooted_of_alters hs (.new _)⟩

end Semant
