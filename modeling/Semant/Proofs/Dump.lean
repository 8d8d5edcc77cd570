import Semant.Proofs.Outline.Run

/-!
# A dump after a check

A dump walks the tree a second time and enters the scopes that the check recorded. It needs to find
each of them directly inside the one that is active, and it does: the outline of the part of the tree
that was walked so far says which scopes are open, and all of them are among those that the check
opened (`Outline.Followed`). The scopes around a node are the same on both walks, since both go
through the same events.
-/

set_option autoImplicit false

namespace Semant

namespace Pass

/-- A step of a dump goes through, whatever was written before, and ends as stated. -/
def Goes {α : Type} (x : DumpM α) (s : Pass) (post : α → Pass → Prop) : Prop :=
  ∀ text, ∃ r more s', (x.run text).run s = .ok (r, more) s' ∧ post r s'

theorem Goes.bind {α β : Type} {x : DumpM α} {f : α → DumpM β} {s : Pass}
    {mid : α → Pass → Prop} {post : β → Pass → Prop} (hx : Goes x s mid)
    (hf : ∀ r s', mid r s' → Goes (f r) s' post) : Goes (x >>= f) s post := by
  intro text
  obtain ⟨r, more, s₁, hrun, hmid⟩ := hx text
  obtain ⟨r', more', s₂, hrun', hpost⟩ := hf r s₁ hmid more
  refine ⟨r', more', s₂, ?_, hpost⟩
  rw [StateT.run_bind, EStateM.run_bind, hrun]
  exact hrun'

theorem Goes.mono {α : Type} {x : DumpM α} {s : Pass} {post post' : α → Pass → Prop}
    (h : Goes x s post) (himp : ∀ r s', post r s' → post' r s') : Goes x s post' := by
  intro text
  obtain ⟨r, more, s', hrun, hpost⟩ := h text
  exact ⟨r, more, s', hrun, himp r s' hpost⟩

theorem Goes.pure {α : Type} {s : Pass} {post : α → Pass → Prop} {r : α} (h : post r s) :
    Goes (Pure.pure r : DumpM α) s post :=
  fun text => ⟨r, text, s, rfl, h⟩

theorem Goes.lift {α : Type} {x : PassM α} {s s' : Pass} {post : α → Pass → Prop} {r : α}
    (h : x.run s = .ok r s') (hpost : post r s') : Goes (liftM x : DumpM α) s post := by
  intro text
  refine ⟨r, text, s', ?_, hpost⟩
  have hlift : ((liftM x : DumpM α).run text).run s
      = (do let a ← x; return (a, text) : PassM (α × String)).run s := rfl
  rw [hlift, EStateM.run_bind, h]
  rfl

theorem Goes.forM {α : Type} {f : α → DumpM Unit} {inv : Pass → Prop}
    (hf : ∀ a s, inv s → Goes (f a) s fun _ s' => inv s') :
    ∀ (l : List α) {s : Pass}, inv s → Goes (l.forM f) s fun _ s' => inv s'
  | [], _, h => Goes.pure h
  | a :: rest, s, h => (hf a s h).bind fun _ _ h' => Goes.forM hf rest h'

theorem getThe_goes (s : Pass) :
    Goes (getThe Pass : DumpM Pass) s fun r s' => r = s ∧ s' = s :=
  fun text => ⟨s, text, s, rfl, rfl, rfl⟩

/-- Only the log changes. -/
def Logs (s s' : Pass) : Prop := ∃ log, s' = s.logged log

theorem dumpLine_goes (line : String) {s d : Pass} (h : Logs s d) :
    Goes (dumpLine line) d fun _ d' => Logs s d' := by
  obtain ⟨log, rfl⟩ := h
  exact fun text => ⟨(), _, _, rfl, _, rfl⟩

theorem dumpScope_goes (ref : ScopeRef) (s : Pass) :
    Goes (dumpScope ref) s fun _ s' => Logs s s' := by
  refine (getThe_goes s).bind ?_
  rintro r s' ⟨rfl, rfl⟩
  have hs : Logs s' s' := ⟨s'.log, rfl⟩
  dsimp only
  split
  · exact Goes.pure hs
  · exact (dumpLine_goes _ hs).bind fun _ d hd =>
      Goes.forM (fun _ _ h => dumpLine_goes _ h) _ hd

end Pass

/-- The dump stands where some scopes are open, and has changed nothing that the check left. -/
structure Followed (nodes : List NodeId) (s d : Pass) : Prop where
  store : d.store = s.store
  root : d.stack.root = s.stack.root
  active : d.stack.active = nodes.head?.bind s.store.notes.scopes.get
  diagnostics : d.diagnostics = s.diagnostics

theorem Followed.logs {nodes : List NodeId} {s d d' : Pass} (h : Followed nodes s d)
    (hl : Pass.Logs d d') : Followed nodes s d' := by
  obtain ⟨log, rfl⟩ := hl
  exact ⟨h.store, h.root, h.active, h.diagnostics⟩

section Dump

variable {final o : Outline} {s d : Pass} (h : final.Describes s)

include h

theorem dumpNode_goes {nodes : List NodeId} {node : NodeId} (subject : Subject)
    (hd : Followed nodes s d) (ha : d.stack.active.isSome)
    (hm : (node, nodes.head?) ∈ final.regions) :
    Pass.Goes (Pass.dumpNode node subject) d fun _ d' => Followed (node :: nodes) s d' := by
  obtain ⟨k, hk, hr⟩ := h.region_of_mem hm
  refine (Pass.getThe_goes d).bind ?_
  rintro r d' ⟨rfl, rfl⟩
  have hscope : d'.store.notes.scopes.get node = some k := by rw [hd.store, hk]
  -- A scope may be entered only from the one around it, and that one is active.
  have hparent : (d'.store.scope k).parent = d'.stack.active := by
    rw [hd.active, hd.store, h.parent hr]
  rw [hscope]
  dsimp only
  have henter : ∃ log, (Pass.enterScope k).run d'
      = .ok () { d' with stack := { d'.stack with active := some k }, log } := by
    simp only [Pass.enterScope, Pass.note, EStateM.run_bind, EStateM.run_get, ha, hparent,
      decide_true, Bool.and_self, if_true, EStateM.run_modify]
    exact ⟨_, rfl⟩
  obtain ⟨log, hrun⟩ := henter
  have hinside : Pass.Goes (liftM (Pass.enterScope k) : Pass.DumpM Unit) d'
      fun _ d₁ => Followed (node :: nodes) s d₁ :=
    Pass.Goes.lift hrun ⟨hd.store, hd.root, hk.symm, hd.diagnostics⟩
  refine hinside.bind fun _ d₁ hd₁ => ?_
  exact (Pass.dumpScope_goes k d₁).mono fun _ d₂ hl => hd₁.logs hl

theorem dumpLeave_goes {node : NodeId} {nodes : List NodeId} (hd : Followed (node :: nodes) s d)
    (hm : (node, nodes.head?) ∈ final.regions) :
    Pass.Goes (do let _ ← Pass.leaveScope : Pass.DumpM Unit) d fun _ d' => Followed nodes s d' := by
  obtain ⟨k, hk, hr⟩ := h.region_of_mem hm
  have hactive : d.stack.active = some k := hd.active.trans hk
  obtain ⟨log, hrun⟩ := Pass.leaveScope_run hactive
  have houtside : Pass.Goes (liftM Pass.leaveScope : Pass.DumpM (Option ScopeRef)) d
      fun _ d₁ => Followed nodes s d₁ := by
    refine Pass.Goes.lift hrun ⟨hd.store, hd.root, ?_, hd.diagnostics⟩
    show (d.store.scope k).parent = _
    rw [hd.store, h.parent hr]
  exact houtside.bind fun _ d₁ hd₁ => Pass.Goes.pure hd₁

/-- The scope of the program is entered from nowhere. -/
theorem dumpProgram_goes {p : Program} (hd : Followed [] s d)
    (hm : [(p.id, none)] <+: final.regions) :
    Pass.Goes (Pass.dumpVisit (.enterProgram p)) d fun _ d' => Followed [p.id] s d' := by
  obtain ⟨rest, hr⟩ := hm
  have hfirst : final.regions[0]? = some (p.id, none) := by simp [← hr]
  have hroot : d.stack.root = some 0 := by
    rw [hd.root, h.root, ← hr]
    rfl
  have hscope : s.store.notes.scopes.get p.id = some 0 := h.recorded.mpr ⟨none, hfirst⟩
  have hreset : ∃ log, Pass.resetScope.run d
      = .ok 0 { d with stack := { d.stack with active := some 0 }, log } := by
    simp only [Pass.resetScope, Pass.note, EStateM.run_bind, EStateM.run_get, hroot,
      EStateM.run_modify]
    exact ⟨_, rfl⟩
  obtain ⟨log, hrun⟩ := hreset
  have hinside : Pass.Goes (liftM Pass.resetScope : Pass.DumpM ScopeRef) d
      fun r d₁ => r = 0 ∧ Followed [p.id] s d₁ :=
    Pass.Goes.lift hrun ⟨rfl, hd.store, hd.root, hscope.symm, hd.diagnostics⟩
  refine hinside.bind ?_
  rintro _ d₁ ⟨rfl, hd₁⟩
  refine (Pass.getThe_goes d₁).bind ?_
  rintro r d₂ ⟨rfl, rfl⟩
  rw [hd₁.store]
  dsimp only
  rw [hscope]
  exact (Pass.dumpScope_goes 0 d₂).mono fun _ d₃ hl => hd₁.logs hl

/-- **One event of a dump.** -/
theorem dumpVisit_goes (hv : o.Valid) {event : Event} (hp : o.Permits event)
    (hsub : (o.step event).regions <+: final.regions)
    (hd : Followed (o.frames.map Frame.node) s d) :
    Pass.Goes (Pass.dumpVisit event) d
      fun _ d' => Followed ((o.step event).frames.map Frame.node) s d' := by
  rw [Outline.nodes_step]
  have hmem : ∀ {x : NodeId × Option NodeId}, x ∈ (o.step event).regions → x ∈ final.regions :=
    fun hx => hsub.subset hx
  -- A scope that is opened lies inside the innermost open one,
  have henter : ∀ {node : NodeId} (subject : Subject), o.frames ≠ [] →
      (node, (o.frames.map Frame.node).head?) ∈ (o.step event).regions →
      Pass.Goes (Pass.dumpNode node subject) d
        fun _ d' => Followed (node :: o.frames.map Frame.node) s d' := by
    intro node subject hf hm
    refine dumpNode_goes h subject hd ?_ (hmem hm)
    cases hfr : o.frames with
    | nil => exact absurd hfr hf
    | cons frame outer =>
      obtain ⟨around, ha⟩ := hv.names.linked.node_mem frame (by rw [hfr]; exact List.mem_cons_self)
      obtain ⟨k, hk, -⟩ := h.region_of_mem (hmem ((o.regions_step event).subset ha))
      simp [hd.active, hfr, hk]
  -- and the innermost open one inside the next.
  have hleave : o.frames ≠ [] → Pass.Goes (do let _ ← Pass.leaveScope : Pass.DumpM Unit) d
      fun _ d' => Followed (o.frames.map Frame.node).tail s d' := by
    intro hf
    cases hfr : o.frames with
    | nil => exact absurd hfr hf
    | cons frame outer =>
      have hl := hv.names.linked
      rw [hfr] at hl hd
      refine dumpLeave_goes h hd (hmem ((o.regions_step event).subset ?_))
      rw [List.map_cons, List.tail_cons, List.head?_map]
      exact hl.1
  cases event with
  | enterProgram p =>
    have hnil : o.frames.map Frame.node = [] := by rw [hp.2]; rfl
    rw [hnil] at hd ⊢
    refine dumpProgram_goes h hd ?_
    simpa [Outline.step, Outline.opened, hp.1, hp.2] using hsub
  | enterBlock b => exact henter _ hp.1 (by simp [Outline.step, Outline.opened])
  | enterFunction f =>
    refine henter _ hp.1.1 ?_
    rw [← Outline.nodes_declare o (.function f)]
    simp [Outline.step, Outline.opened]
  | exitProgram p => exact hleave hp
  | exitBlock b => exact hleave hp
  | exitFunction f => exact hleave hp.1
  | _ => exact Pass.Goes.pure hd

/-- A dump goes through all events that the check went through. -/
theorem dumpEvents_goes (hv : o.Valid) {events : List Event} (ho : o.Orderly events)
    (hfinal : (o.run events).regions <+: final.regions)
    (hd : Followed (o.frames.map Frame.node) s d) :
    Pass.Goes (forM events Pass.dumpVisit : Pass.DumpM PUnit) d
      fun _ d' => Followed ((o.run events).frames.map Frame.node) s d' := by
  induction events generalizing o d with
  | nil => exact Pass.Goes.pure hd
  | cons event rest ih =>
    rw [List.forM_cons]
    refine (dumpVisit_goes h hv ho.1 (((o.step event).regions_run rest).trans hfinal) hd).bind ?_
    intro _ d₁ hd₁
    exact ih (hv.step ho.1) ho.2 hfinal hd₁

end Dump

/-- **A dump after a check goes through.** -/
theorem Pass.dump_ok {p : Program} {literals : Cells Ty} {s : Pass} (hn : p.nodes.Nodup)
    (ht : ∀ token ∈ p.typeNames, token.type?.isSome)
    (h : ((Outline.start literals).run p.events).Describes s) :
    ∃ text s', (Pass.dump p).run s = .ok text s' ∧ s'.diagnostics = s.diagnostics := by
  have hactive : s.stack.active = none := by
    rw [h.active, p.frames_run literals hn ht]
    rfl
  have hd : Followed ((Outline.start literals).frames.map Frame.node) s s :=
    ⟨rfl, rfl, hactive, rfl⟩
  obtain ⟨u, text, s', hrun, hs'⟩ := dumpEvents_goes h (Outline.Valid.start literals)
    (p.orderly literals hn ht) List.prefix_rfl hd ""
  refine ⟨text, s', ?_, hs'.diagnostics⟩
  rw [Pass.dump, EStateM.run_bind, Program.walk_eq_forM, hrun]
  rfl

end Semant
