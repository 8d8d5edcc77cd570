import Semant.Proofs.Listing

/-!
# Scopes that a check records

A check that goes through opens a scope at each node that has one, in the order of the nodes, and records
it there. `Outline` follows a check in much more detail, but only for trees in which no node occurs
twice. Here the tree is any tree at all, and it may be that a check of a tree with shared nodes goes
through: a node with a scope cannot be shared then, since its cell is full when the walk comes to it again.
So the scopes are linked in any case, and a dump finds them.

Nothing ever empties a cell during a check (`Pass.Grows`). A later check of the same tree empties its
cells before it begins, and puts scopes of its own there, so that whoever still holds the older stack
of scopes finds a foreign scope at the program.
-/

set_option autoImplicit false

namespace Semant

namespace Pass

/-! ## Scopes stay -/

/-- Scopes stay where they are, and so do cells that hold one. -/
structure Grows (s t : Pass) : Prop where
  keeps : s.store.Keeps t.store
  recorded : ∀ node ref, s.store.notes.scopes.get node = some ref →
    t.store.notes.scopes.get node = some ref

theorem Grows.refl (s : Pass) : Grows s s := ⟨.refl _, fun _ _ h => h⟩

theorem Grows.trans {s t u : Pass} (h : Grows s t) (h' : Grows t u) : Grows s u :=
  ⟨h.keeps.trans h'.keeps, fun node ref hr => h'.recorded node ref (h.recorded node ref hr)⟩

theorem SameScopes.grows {s t : Pass} (h : SameScopes s t) : Grows s t :=
  ⟨h.keeps, fun node ref hr => by rw [h.recorded, hr]⟩

theorem Alters.grows {room : Symbol → Prop} {s t : Pass} (h : Alters room s t) : Grows s t := by
  refine ⟨h.keeps, ?_⟩
  intro node ref hr
  rcases h with hc | hm
  · rw [hc.sameScopes.recorded, hr]
  · cases hm with
    | recording other scope empty =>
      -- Only an empty cell is written.
      have hne : other ≠ node := by
        rintro rfl
        exact absurd (hr.symm.trans empty) nofun
      show (s.store.notes.scopes.put other scope).get node = some ref
      rw [Cells.get_put, if_neg hne, hr]
    | _ => exact hr

theorem grows_of_alters {room : Symbol → Prop} {s t : Pass}
    (h : Relation.ReflTransGen (Alters room) s t) : Grows s t := by
  induction h with
  | refl => exact .refl s
  | tail _ hlast ih => exact ih.trans hlast.grows

/-! ## Events that went through -/

theorem open_ok {s t : Pass} {node : NodeId} {label : String} {subject : Subject}
    (h : (do let scope ← openScope label; recordScope node scope subject : PassM Unit).run s
      = .ok () t) :
    s.store.notes.scopes.get node = none ∧ ∃ log, t = (s.opening node).logged log := by
  cases hr : s.store.notes.scopes.get node with
  | none =>
    obtain ⟨log, hrun⟩ := open_run label subject hr
    rw [hrun] at h
    cases h
    exact ⟨rfl, log, rfl⟩
  | some old =>
    simp only [openScope, createScope, note, recordScope, record, EStateM.run_bind, EStateM.run_get,
      EStateM.run_modify, EStateM.run_pure] at h
    -- The scope was opened all the same, and then there is no room for it.
    rw [Annotations.fillScope_taken _ (by exact hr)] at h
    cases h

/-- A node at which a scope was opened had none. -/
theorem visit_opens {s t : Pass} {event : Event} {node : NodeId} (ho : event.opens? = some node)
    (h : (visit event).run s = .ok () t) :
    ∃ before, SameScopes s before ∧ before.store.notes.scopes.get node = none ∧
      SameScopes (before.opening node) t := by
  cases event with
  | enterProgram p =>
    cases ho
    obtain ⟨hempty, log, rfl⟩ := open_ok h
    exact ⟨s, .refl s, hempty, .logged _ log⟩
  | enterBlock b =>
    cases ho
    obtain ⟨hempty, log, rfl⟩ := open_ok h
    exact ⟨s, .refl s, hempty, .logged _ log⟩
  | enterFunction f =>
    cases ho
    rw [visit_enterFunction] at h
    obtain ⟨r, before, hdeclare, h⟩ := bind_ok.mp h
    obtain ⟨u, after, hopen, ⟨⟩⟩ := bind_ok.mp h
    have hchanges : Relation.ReflTransGen (Change Symbol.Any) s _ := takes_declareFunction f s
    rw [hdeclare] at hchanges
    obtain ⟨hempty, log, rfl⟩ := open_ok hopen
    refine ⟨before, .of_changes hchanges, hempty, ?_⟩
    exact (SameScopes.logged _ log).trans (.inside _ (some f))
  | _ => cases ho

theorem visit_closes {s t : Pass} {event : Event} (hc : event.closes = true)
    (h : (visit event).run s = .ok () t) :
    ∃ ref, s.stack.active = some ref ∧ SameScopes (s.leaving ref) t := by
  cases ha : s.stack.active with
  | none =>
    have hleave : leaveScope.run s = .error .scopeUnderflow s := by
      simp only [leaveScope, EStateM.run_bind, EStateM.run_get, ha]
      rfl
    cases event with
    | exitProgram p | exitBlock b | exitFunction f =>
      simp only [visit, EStateM.run_bind, hleave] at h
      cases h
    | _ => cases hc
  | some ref =>
    obtain ⟨log, hleave⟩ := leaveScope_run ha
    refine ⟨ref, rfl, ?_⟩
    cases event with
    | exitProgram p | exitBlock b =>
      simp only [visit, EStateM.run_bind, hleave] at h
      cases h
      exact .logged (s.leaving ref) log
    | exitFunction f =>
      simp only [visit, EStateM.run_bind, hleave, EStateM.run_modify] at h
      cases h
      exact (SameScopes.logged (s.leaving ref) log).trans (.inside _ none)
    | _ => cases hc

/-! ## A check that went through -/

/-- Each open node has a scope, which lies inside that of the next. The innermost scope is active. -/
structure Tracks (outer : List NodeId) (s : Pass) : Prop where
  active : s.stack.active = outer.head?.bind s.store.notes.scopes.get
  scopes : ∀ node rest, node :: rest <:+ outer → ∃ ref, s.store.notes.scopes.get node = some ref ∧
    ref < s.store.scopes.size ∧ (s.store.scope ref).parent = rest.head?.bind s.store.notes.scopes.get

/-- Between the two states scopes were opened at these nodes, and recorded on them. -/
structure Opens (regions : List (NodeId × Option NodeId)) (s t : Pass) : Prop where
  grows : Grows s t
  size : t.store.scopes.size = s.store.scopes.size + regions.length
  next : t.stack.next = s.stack.next + regions.length
  root : t.stack.root = s.stack.root.or (regions.head?.map fun _ => s.store.scopes.size)
  recorded : ∀ (k : Nat) node around, regions[k]? = some (node, around) →
    t.store.notes.scopes.get node = some (s.store.scopes.size + k)
  id : ∀ k : Nat, k < regions.length → t.store.scopeId (s.store.scopes.size + k) = s.stack.next + k
  parent : ∀ (k : Nat) node around, regions[k]? = some (node, around) →
    (t.store.scope (s.store.scopes.size + k)).parent = around.bind t.store.notes.scopes.get ∧
    (around.bind t.store.notes.scopes.get).isSome = around.isSome

theorem Tracks.scopes_grow {outer : List NodeId} {s t : Pass} (h : Tracks outer s)
    (hg : Grows s t) (node : NodeId) (rest : List NodeId) (hs : node :: rest <:+ outer) :
    ∃ ref, t.store.notes.scopes.get node = some ref ∧ ref < t.store.scopes.size ∧
      (t.store.scope ref).parent = rest.head?.bind t.store.notes.scopes.get := by
  obtain ⟨ref, hrec, hlt, hparent⟩ := h.scopes node rest hs
  refine ⟨ref, hg.recorded node ref hrec, Nat.lt_of_lt_of_le hlt hg.keeps.size, ?_⟩
  rw [hg.keeps.parent ref hlt, hparent]
  cases rest with
  | nil => rfl
  | cons next rest =>
    obtain ⟨ref', hrec', -⟩ := h.scopes next rest ((List.suffix_cons node _).trans hs)
    show s.store.notes.scopes.get next = t.store.notes.scopes.get next
    rw [hrec', hg.recorded next ref' hrec']

theorem Tracks.head_grows {outer : List NodeId} {s t : Pass} (h : Tracks outer s)
    (hg : Grows s t) : outer.head?.bind t.store.notes.scopes.get
      = outer.head?.bind s.store.notes.scopes.get := by
  cases outer with
  | nil => rfl
  | cons node rest =>
    obtain ⟨ref, hrec, -⟩ := h.scopes node rest List.suffix_rfl
    exact (hg.recorded node ref hrec).trans hrec.symm

theorem Tracks.same {outer : List NodeId} {s t : Pass} (h : Tracks outer s)
    (hs : SameScopes s t) : Tracks outer t :=
  ⟨by rw [hs.stack, h.active, hs.recorded], h.scopes_grow hs.grows⟩

theorem Opens.nothing {s t : Pass} (hg : Grows s t)
    (hsize : t.store.scopes.size = s.store.scopes.size) (hnext : t.stack.next = s.stack.next)
    (hroot : t.stack.root = s.stack.root) : Opens [] s t where
  grows := hg
  size := hsize
  next := hnext
  root := by rw [hroot, List.head?_nil, Option.map_none, Option.or_none]
  recorded _ _ _ hk := nomatch hk
  id _ hk := absurd hk (Nat.not_lt_zero _)
  parent _ _ _ hk := nomatch hk

theorem Opens.same {s t : Pass} (h : SameScopes s t) : Opens [] s t :=
  .nothing h.grows h.size (by rw [h.stack]) (by rw [h.stack])

theorem Opens.trans {first rest : List (NodeId × Option NodeId)} {s t u : Pass}
    (h : Opens first s t) (h' : Opens rest t u) : Opens (first ++ rest) s u where
  grows := h.grows.trans h'.grows
  size := by rw [h'.size, h.size, List.length_append, Nat.add_assoc]
  next := by rw [h'.next, h.next, List.length_append, Nat.add_assoc]
  root := by
    rw [h'.root, h.root, h.size]
    cases first with
    | nil => simp
    | cons region first => simp
  recorded k node around hk := by
    by_cases hlt : k < first.length
    · rw [List.getElem?_append_left hlt] at hk
      exact h'.grows.recorded _ _ (h.recorded k node around hk)
    · rw [List.getElem?_append_right (Nat.le_of_not_lt hlt)] at hk
      rw [h'.recorded _ node around hk, h.size]
      congr 1
      omega
  id k hk := by
    by_cases hlt : k < first.length
    · rw [← h.id k hlt]
      exact h'.grows.keeps.id _ (by rw [h.size]; omega)
    · have hid := h'.id (k - first.length) (by rw [List.length_append] at hk; omega)
      rw [h.size, h.next] at hid
      rw [show s.store.scopes.size + k = s.store.scopes.size + first.length + (k - first.length) by
        omega, hid]
      omega
  parent k node around hk := by
    by_cases hlt : k < first.length
    · rw [List.getElem?_append_left hlt] at hk
      obtain ⟨hparent, hsome⟩ := h.parent k node around hk
      -- What is recorded on the node around was recorded before, and it stays.
      have hsame : around.bind u.store.notes.scopes.get = around.bind t.store.notes.scopes.get := by
        cases around with
        | none => rfl
        | some outer =>
          obtain ⟨ref, hrec⟩ := Option.isSome_iff_exists.mp hsome
          exact (h'.grows.recorded outer ref hrec).trans hrec.symm
      rw [hsame, ← hparent]
      exact ⟨h'.grows.keeps.parent _ (by rw [h.size]; omega), hparent ▸ hsome⟩
    · rw [List.getElem?_append_right (Nat.le_of_not_lt hlt)] at hk
      have hlast := h'.parent _ node around hk
      rw [h.size, show s.store.scopes.size + first.length + (k - first.length)
        = s.store.scopes.size + k by omega] at hlast
      exact hlast

section

variable {outer : List NodeId} {s t : Pass} {node : NodeId}

theorem scope_opening (s : Pass) (node : NodeId) (ref : ScopeRef) :
    (s.opening node).store.scope ref = if ref = s.store.scopes.size
      then { id := s.stack.next, parent := s.stack.active } else s.store.scope ref :=
  Store.scope_addScope _ _ ref

theorem recorded_opening (s : Pass) (node other : NodeId) :
    (s.opening node).store.notes.scopes.get other
      = if node = other then some s.store.scopes.size else s.store.notes.scopes.get other :=
  Cells.get_put _ _ _ _

theorem Grows.opening (h : s.store.notes.scopes.get node = none) : Grows s (s.opening node) where
  keeps := by
    have hsame : ∀ ref, ref < s.store.scopes.size →
        (s.opening node).store.scope ref = s.store.scope ref := by
      intro ref hr
      rw [scope_opening, if_neg (Nat.ne_of_lt hr)]
    refine ⟨?_, fun ref hr => by rw [hsame ref hr], fun ref hr => by rw [hsame ref hr]⟩
    show s.store.scopes.size ≤ (s.store.addScope _).scopes.size
    rw [Store.size_addScope]
    exact Nat.le_succ _
  recorded other ref hr := by
    rw [recorded_opening, if_neg, hr]
    rintro rfl
    exact absurd (hr.symm.trans h) nofun

theorem Opens.opening (ht : Tracks outer s) (h : s.store.notes.scopes.get node = none) :
    Opens [(node, outer.head?)] s (s.opening node) := by
  have hgrows := Grows.opening h
  refine ⟨hgrows, Store.size_addScope _ _, rfl, rfl, ?_, ?_, ?_⟩
  · rintro (_ | k) node' around ⟨⟩
    rw [recorded_opening, if_pos rfl]
    rfl
  · intro k hk
    cases Nat.lt_one_iff.mp hk
    show ((s.opening node).store.scope s.store.scopes.size).id = s.stack.next
    rw [scope_opening, if_pos rfl]
  · rintro (_ | k) node' around ⟨⟩
    rw [ht.head_grows hgrows, ← ht.active]
    refine ⟨?_, ?_⟩
    · show ((s.opening node).store.scope s.store.scopes.size).parent = s.stack.active
      rw [scope_opening, if_pos rfl]
    · rw [ht.active]
      cases outer with
      | nil => rfl
      | cons inner rest =>
        obtain ⟨ref, hrec, -⟩ := ht.scopes inner rest List.suffix_rfl
        show (s.store.notes.scopes.get inner).isSome = true
        rw [hrec]
        rfl

theorem Tracks.opening (ht : Tracks outer s) (h : s.store.notes.scopes.get node = none) :
    Tracks (node :: outer) (s.opening node) := by
  have hgrows := Grows.opening h
  have hrec : (s.opening node).store.notes.scopes.get node = some s.store.scopes.size := by
    rw [recorded_opening, if_pos rfl]
  refine ⟨hrec.symm, ?_⟩
  intro other rest hs
  rcases List.suffix_cons_iff.mp hs with heq | hs
  · cases heq
    refine ⟨s.store.scopes.size, hrec, ?_, ?_⟩
    · exact Nat.lt_of_lt_of_eq (Nat.lt_succ_self _) (Store.size_addScope _ _).symm
    · rw [scope_opening, if_pos rfl, ht.head_grows hgrows]
      exact ht.active
  · exact ht.scopes_grow hgrows other rest hs

theorem Tracks.leaving {ref : ScopeRef} (ht : Tracks (node :: outer) s)
    (ha : s.stack.active = some ref) : Tracks outer (s.leaving ref) := by
  obtain ⟨ref', hrec, -, hparent⟩ := ht.scopes node outer List.suffix_rfl
  cases (ha.symm.trans ht.active).trans hrec
  exact ⟨hparent, fun other rest hs => ht.scopes other rest (hs.trans (List.suffix_cons _ _))⟩

/-- **One event of a check.** -/
theorem visit_tracks {event : Event} (hf : event.Fits outer) (ht : Tracks outer s)
    (h : (visit event).run s = .ok () t) :
    Tracks (event.scopes outer) t ∧
      Opens (event.opens?.map fun node => (node, outer.head?)).toList s t := by
  cases ho : event.opens? with
  | some node =>
    obtain ⟨before, hsame, hempty, hsame'⟩ := visit_opens ho h
    have htracks := ht.same hsame
    have hscopes : event.scopes outer = node :: outer := by
      cases event <;> cases ho <;> rfl
    rw [hscopes]
    have hall := ((Opens.same hsame).trans (.opening htracks hempty)).trans (.same hsame')
    exact ⟨(htracks.opening hempty).same hsame', hall⟩
  | none =>
    -- the three kinds of event: one opens, one leaves, and the others do neither
    cases hc : event.closes with
    | true =>
      obtain ⟨ref, ha, hsame⟩ := visit_closes hc h
      have hscopes : event.scopes outer = outer.tail ∧ outer ≠ [] := by
        cases event with
        | exitProgram p | exitFunction f | exitBlock b => exact ⟨rfl, hf⟩
        | _ => cases hc
      cases outer with
      | nil => exact absurd rfl hscopes.2
      | cons node outer =>
        rw [hscopes.1]
        have hleave : Opens [] s (s.leaving ref) :=
          .nothing ⟨.refl _, fun _ _ h => h⟩ rfl rfl rfl
        exact ⟨(ht.leaving ha).same hsame, hleave.trans (.same hsame)⟩
    | false =>
      have hstill : event.Still := ⟨ho, hc⟩
      have hsame : SameScopes s t := by
        have hchanges := takes_visit_still ho hc s
        rw [h] at hchanges
        exact .of_changes hchanges
      rw [hstill.scopes]
      exact ⟨ht.same hsame, .same hsame⟩

/-- **Events of a check.** -/
theorem events_track {events : List Event} (hn : Nested outer events) (ht : Tracks outer s)
    (h : (forM events visit : PassM PUnit).run s = .ok () t) :
    Tracks (events.foldl Event.scopes outer) t ∧ Opens (regionsIn outer events) s t := by
  induction events generalizing outer s with
  | nil =>
    cases h
    exact ⟨ht, .same (.refl _)⟩
  | cons event rest ih =>
    rw [List.forM_cons, EStateM.run_bind] at h
    cases hr : (visit event).run s with
    | error e s' => rw [hr] at h; cases h
    | ok u s' =>
      rw [hr] at h
      obtain ⟨ht', hopens⟩ := visit_tracks hn.1 ht hr
      obtain ⟨htracks, hmore⟩ := ih hn.2 ht' h
      exact ⟨htracks, hopens.trans hmore⟩

end

end Pass

/-! ## Analyses -/

mutual

theorem Stmt.around_isSome {node : NodeId} {r : Region} :
    ∀ s : Stmt, r ∈ s.regions node → r.around.isSome
  | .branch conditional, hm => conditional.around_isSome hm
  | .whileLoop _ _ body, hm | .doLoop _ body _, hm | .block body, hm => body.around_isSome hm
  | .data _, hm | .assign _, hm | .expr _, hm | .ret _ _, hm | .yield _ _, hm | .brk _, hm | .cont _, hm
  | .inline _ _, hm => absurd hm List.not_mem_nil

theorem Block.around_isSome {node : NodeId} {r : Region} :
    ∀ b : Block, r ∈ b.regions node → r.around.isSome
  | .mk id _ body, hm => by
    rcases List.mem_cons.mp hm with rfl | hm
    · rfl
    · exact Stmt.around_isSome_list body hm

theorem Stmt.around_isSome_list {node : NodeId} {r : Region} :
    ∀ body : List Stmt, r ∈ Stmt.regionsOfList node body → r.around.isSome
  | [], hm => absurd hm List.not_mem_nil
  | s :: rest, hm =>
    (List.mem_append.mp hm).elim s.around_isSome (Stmt.around_isSome_list rest)

theorem Conditional.around_isSome {node : NodeId} {r : Region} :
    ∀ c : Conditional, r ∈ c.regions node → r.around.isSome
  | .mk _ _ body otherwise, hm =>
    (List.mem_append.mp hm).elim body.around_isSome otherwise.around_isSome

theorem Else.around_isSome {node : NodeId} {r : Region} :
    ∀ e : Else, r ∈ e.regions node → r.around.isSome
  | .none, hm => absurd hm List.not_mem_nil
  | .elseIf next, hm => next.around_isSome hm
  | .block body, hm => body.around_isSome hm

end

/-- Only the program lies inside nothing. -/
theorem Program.around_isSome {p : Program} {r : Region}
    (h : r ∈ p.items.flatMap (Item.regions p.id)) : r.around.isSome := by
  obtain ⟨item, -, hr⟩ := List.mem_flatMap.mp h
  cases item with
  | imports i | data definition => cases hr
  | function f =>
    rcases List.mem_cons.mp hr with rfl | hr
    · rfl
    · exact f.body.around_isSome hr
  | start s => exact s.body.around_isSome hr

/-- A check that went through has recorded the scopes of all nodes, and left them again. -/
theorem Pass.check_opens {p : Program} {s t : Pass} (ha : s.stack.active = none)
    (h : (Pass.check p).run s = .ok () t) :
    t.stack.active = none ∧ Pass.Opens (p.regions.map fun r => (r.node, r.around)) s t := by
  rw [Pass.check_run] at h
  have hstart : Pass.Tracks [] (s.logged (s.log.push (.cleared p.file p.clearedNodes))) :=
    ⟨ha, fun _ _ hs => absurd (List.suffix_nil.mp hs) nofun⟩
  obtain ⟨htracks, hopens⟩ := Pass.events_track p.nested hstart h
  rw [p.scopes_events] at htracks
  rw [p.regionsIn_events] at hopens
  exact ⟨htracks.active, (Pass.Opens.same (.logged s _)).trans hopens⟩

section

variable {store after : Store} {p : Program} {a : Analysis}

/-- What an analysis leaves behind is what a check does. -/
theorem Store.analyze_opens (h : store.analyze p = (.ok a, after)) :
    ∃ t : Pass, after = t.store ∧ a.stack = t.stack ∧ a.program = p ∧ t.stack.active = none ∧
      Pass.Opens (p.regions.map fun r => (r.node, r.around)) (store.checking p) t := by
  obtain ⟨t, hcheck, rfl, hafter⟩ := Store.check_of_analyze h
  exact ⟨t, hafter, rfl, rfl, Pass.check_opens rfl hcheck⟩

theorem Store.analyze_root (h : store.analyze p = (.ok a, after)) :
    a.stack.root = some store.scopes.size ∧ store.scopes.size < after.scopes.size ∧
      (after.scope store.scopes.size).parent = none := by
  obtain ⟨t, rfl, hstack, -, -, hopens⟩ := Store.analyze_opens h
  refine ⟨by rw [hstack, hopens.root]; rfl, ?_, ?_⟩
  · have hsize : t.store.scopes.size = store.scopes.size + _ := hopens.size
    rw [hsize, List.length_map, Program.regions, List.length_cons]
    omega
  · exact (hopens.parent 0 p.id none rfl).1

/-- The scopes of an analysis come one behind the other, and so do their numbers. -/
theorem Store.analyze_recorded (h : store.analyze p = (.ok a, after)) {k : Nat} {r : Region}
    (hr : p.regions[k]? = some r) :
    after.notes.scopes.get r.node = some (store.scopes.size + k) ∧
      after.scopeId (store.scopes.size + k) = k := by
  obtain ⟨t, rfl, -, -, -, hopens⟩ := Store.analyze_opens h
  have hmap : (p.regions.map fun r => (r.node, r.around))[k]? = some (r.node, r.around) := by
    rw [List.getElem?_map, hr]
    rfl
  refine ⟨hopens.recorded k _ _ hmap, (hopens.id k ?_).trans (Nat.zero_add k)⟩
  exact (List.getElem?_eq_some_iff.mp hmap).1

/-- **The scopes of an analysis are linked.** -/
theorem Store.analyze_linked (h : store.analyze p = (.ok a, after)) :
    ∀ r ∈ p.regions, after.Linked store.scopes.size r.node r.around := by
  intro r hr
  obtain ⟨k, hk⟩ := List.mem_iff_getElem?.mp hr
  obtain ⟨hrec, -⟩ := Store.analyze_recorded h hk
  refine ⟨_, hrec, ?_⟩
  cases haround : r.around with
  | none =>
    -- Only the first region lies inside nothing.
    cases k with
    | zero => rfl
    | succ k =>
      have hmem : r ∈ p.items.flatMap (Item.regions p.id) := List.mem_of_getElem? hk
      have hsome := Program.around_isSome hmem
      rw [haround] at hsome
      cases hsome
  | some outer =>
    obtain ⟨t, rfl, -, -, -, hopens⟩ := Store.analyze_opens h
    have hmap : (p.regions.map fun r => (r.node, r.around))[k]? = some (r.node, some outer) := by
      rw [List.getElem?_map, hk, Option.map_some, haround]
    obtain ⟨hparent, hsome⟩ := hopens.parent k _ _ hmap
    obtain ⟨next, hnext⟩ := Option.isSome_iff_exists.mp hsome
    exact ⟨next, hnext, hparent.trans hnext⟩

theorem filterMap_eq_range' {α : Type} {f : α → Option Nat} {as : List α} {b : Nat}
    (h : ∀ (k : Nat) a, as[k]? = some a → f a = some (b + k)) :
    as.filterMap f = List.range' b as.length := by
  induction as generalizing b with
  | nil => rfl
  | cons a rest ih =>
    rw [List.filterMap_cons_some (h 0 a rfl), List.length_cons, List.range'_succ,
      ih (b := b + 1)]
    · rfl
    · intro k a' hk
      rw [h (k + 1) a' hk]
      congr 1
      omega

/-- Scopes are listed in the order of their numbers. -/
theorem Store.listed_increasing (h : store.analyze p = (.ok a, after)) :
    (after.listed p).Pairwise fun x y => after.scopeId x < after.scopeId y := by
  have hscopes : after.scopesOf p = List.range' store.scopes.size p.regions.length :=
    filterMap_eq_range' fun k r hr => (Store.analyze_recorded h hr).1
  have hid : ∀ ref ∈ after.scopesOf p, store.scopes.size + after.scopeId ref = ref := by
    intro ref hm
    rw [hscopes, List.mem_range'_1] at hm
    obtain ⟨k, rfl⟩ := Nat.exists_eq_add_of_le hm.1
    have hk : k < p.regions.length := by omega
    rw [(Store.analyze_recorded h (List.getElem?_eq_getElem hk)).2]
  have hall : (after.scopesOf p).Pairwise fun x y => after.scopeId x < after.scopeId y := by
    have hlt : (after.scopesOf p).Pairwise (· < ·) := by
      rw [hscopes]
      exact List.pairwise_lt_range'
    refine hlt.imp_of_mem ?_
    intro x y hx hy hxy
    apply Nat.lt_of_add_lt_add_left (n := store.scopes.size)
    rw [hid x hx, hid y hy]
    exact hxy
  exact hall.filter _

/-- An analysis records a scope on the program first, and it is never taken away again, also if
the analysis fails. -/
theorem Store.analyze_program (store : Store) (p : Program) :
    (store.analyze p).2.notes.scopes.get p.id = some store.scopes.size ∧
      (store.analyze p).2.scopeId store.scopes.size = 0 := by
  let start := (store.checking p).logged (#[].push (.cleared p.file p.clearedNodes))
  have hfirst : Event.enterProgram p ∈ p.events := List.mem_cons_self
  have hempty : start.store.notes.scopes.get p.id = none :=
    Annotations.scopes_clear hfirst rfl store.notes
  obtain ⟨log, hopen⟩ := Pass.open_run "program" (.program p.file) hempty
  -- the first event is run by hand, and from there on nothing recorded is taken away
  have hgrows : ∃ t : Pass, (store.analyze p).2 = t.store ∧
      Pass.Grows ((start.opening p.id).logged log) t := by
    have hrest := Pass.Takes.forM Pass.takes_visit
      (p.items.flatMap Item.events ++ [.exitProgram p]) ((start.opening p.id).logged log)
    refine ⟨_, ?_, Pass.grows_of_alters hrest⟩
    have hevents : (forM p.events Pass.visit : PassM PUnit).run start
        = (forM (p.items.flatMap Item.events ++ [.exitProgram p]) Pass.visit : PassM PUnit).run
            ((start.opening p.id).logged log) := by
      rw [Program.events, List.forM_cons, EStateM.run_bind, Pass.visit, hopen]
    have hcheck := Pass.check_run p (store.checking p)
    rw [show (store.checking p).logged ((store.checking p).log.push _) = start from rfl,
      hevents] at hcheck
    rw [store.analyze_eq, hcheck]
    cases (forM (p.items.flatMap Item.events ++ [.exitProgram p]) Pass.visit : PassM PUnit).run
      ((start.opening p.id).logged log) <;> rfl
  obtain ⟨t, hstore, hgrows⟩ := hgrows
  rw [hstore]
  refine ⟨hgrows.recorded _ _ ?_, (hgrows.keeps.id _ ?_).trans ?_⟩
  · exact (Pass.recorded_opening start p.id p.id).trans (if_pos rfl)
  · exact Nat.lt_of_lt_of_eq (Nat.lt_succ_self _) (Store.size_addScope _ _).symm
  · rw [show ((start.opening p.id).logged log).store.scope store.scopes.size = _ from
      Pass.scope_opening start p.id _]
    exact congrArg Scope.id (if_pos rfl)

/-- Whoever still holds the stack of an older analysis finds a scope of the later one. -/
theorem Store.dump_stale {later : Store} (h : store.analyze p = (.ok a, after))
    (hl : after.scopes.size ≤ later.scopes.size) :
    (later.analyze p).2.dump a = .error (.unexpectedScope 0) := by
  obtain ⟨hroot, hlt, -⟩ := Store.analyze_root h
  obtain ⟨-, -, -, hp, -⟩ := Store.analyze_opens h
  obtain ⟨hrec, hid⟩ := later.analyze_program p
  have hne : later.scopes.size ≠ store.scopes.size := Nat.ne_of_gt (Nat.lt_of_lt_of_le hlt hl)
  obtain ⟨d, hrun⟩ := Pass.dump_foreign (s := { store := (later.analyze p).2, stack := a.stack })
    (p := p) hroot hrec hne
  rw [hid] at hrun
  unfold Store.dump
  rw [hp, hrun]

end

end Semant
