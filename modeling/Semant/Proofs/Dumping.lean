import Semant.Proofs.Tracking

/-!
# Dumps are complete and in order

A dump goes through exactly if the scopes of the tree are linked, and then it lists them all. Within
a scope the symbols come in the order of their names. Names are compared character by character here and
byte by byte by whoever reads the dump; in UTF-8 both are the same order.

After an analysis the scopes are linked, and after another analysis of the same tree they are no
longer linked for the first.
-/

set_option autoImplicit false

namespace Semant

/-! ## The order of bytes -/

/-- A text as it is stored. -/
def utf8 (text : String) : List UInt8 := text.toUTF8.data.toList

/-- The first byte in which the two characters differ decides. No character is stored as the beginning
of another. -/
theorem utf8EncodeChar_lt {c d : Char} (h : c < d) (front back : List UInt8) :
    String.utf8EncodeChar c ++ front < String.utf8EncodeChar d ++ back := by
  have hval : c.val.toNat < d.val.toNat := h
  have hd : d.val.toNat < 0x110000 := by
    have := d.valid
    cases this <;> omega
  have hbyte : ∀ {k : Nat}, k < 256 → (UInt8.ofNat k).toNat = k := fun h => by
    rw [UInt8.toNat_ofNat', Nat.mod_eq_of_lt h]
  -- The bytes are digits of base 64 behind a mark that says how many there are, and the marks grow
  -- with the numbers. So the cases are decided by the first digit that differs.
  have hhigh : ∀ k : Nat, k / 4096 = k / 64 / 64 ∧ k / 262144 = k / 64 / 64 / 64 := by omega
  unfold String.utf8EncodeChar
  generalize c.val.toNat = m at hval
  generalize d.val.toNat = n at hval hd
  dsimp only
  repeat' split
  all_goals
    simp (disch := omega) only [List.cons_append, List.nil_append, List.cons_lt_cons_iff,
      UInt8.lt_iff_toNat_lt, ← UInt8.toNat_inj, hbyte, hhigh]
    omega

theorem flatMap_utf8EncodeChar_lt {cs ds : List Char} (h : cs < ds) :
    cs.flatMap String.utf8EncodeChar < ds.flatMap String.utf8EncodeChar := by
  induction h with
  | @nil d ds =>
    rw [List.flatMap_cons]
    obtain ⟨byte, more, hbytes⟩ :=
      List.exists_cons_of_ne_nil (String.utf8EncodeChar_ne_nil (c := d))
    rw [hbytes]
    exact List.Lex.nil
  | rel h => exact utf8EncodeChar_lt h _ _
  | cons h ih =>
    rw [List.flatMap_cons, List.flatMap_cons]
    exact List.append_left_lt ih

theorem utf8_eq (text : String) : utf8 text = text.toList.flatMap String.utf8EncodeChar := by
  unfold utf8
  conv => lhs; rw [← String.ofList_toList (s := text)]
  rw [String.toUTF8, String.toByteArray_ofList]
  simp [List.utf8Encode]

theorem utf8_lt {a b : String} (h : a < b) : utf8 a < utf8 b := by
  rw [utf8_eq, utf8_eq]
  exact flatMap_utf8EncodeChar_lt (String.lt_iff.mp h)

/-! ## The symbols of a scope -/

namespace Store.Proper

variable {store : Store}

/-- Each symbol of a scope is listed once, in the order of the names. -/
theorem symbolsIn_increasing (h : store.Proper) (ref : ScopeRef) :
    (store.symbolsIn ref).Pairwise fun x y =>
      utf8 (store.symbol x).name < utf8 (store.symbol y).name := by
  unfold Store.symbolsIn
  rw [List.pairwise_map]
  refine (h.tidy ref).imp_of_mem ?_
  rintro ⟨name, symbol⟩ ⟨name', symbol'⟩ hm hm' hlt
  rw [h.named ref name symbol hm, h.named ref name' symbol' hm']
  exact utf8_lt hlt

/-- All symbols of a scope are listed, and no others. -/
theorem findLocal?_iff (h : store.Proper) (ref : ScopeRef) (name : String) (symbol : SymbolRef) :
    store.findLocal? ref name = some symbol
      ↔ symbol ∈ store.symbolsIn ref ∧ (store.symbol symbol).name = name := by
  unfold Store.findLocal? Store.symbolsIn
  rw [← (h.tidy ref).mem_iff]
  constructor
  · intro hm
    exact ⟨List.mem_map_of_mem hm, h.named ref name symbol hm⟩
  · rintro ⟨hm, rfl⟩
    obtain ⟨⟨name, symbol'⟩, hbound, rfl⟩ := List.mem_map.mp hm
    rw [h.named ref name symbol' hbound]
    exact hbound

end Store.Proper

/-! ## Dumps -/

/-- A dump that went through can be repeated. -/
theorem Pass.dump_twice {s : Pass} {root : ScopeRef} {p : Program}
    (hroot : s.stack.root = some root) (houter : (s.store.scope root).parent = none)
    (h : ∀ r ∈ p.regions, s.store.Linked root r.node r.around) :
    ∃ log u, (Pass.dump p).run s = .ok (s.store.listings p) (s.standing none log) ∧
      (Pass.dump p).run (s.standing none log) = .ok (s.store.listings p) u := by
  obtain ⟨log, hrun⟩ := Pass.dump_linked hroot houter h
  obtain ⟨log', hagain⟩ := Pass.dump_linked (s := s.standing none log) hroot houter h
  exact ⟨log, _, hrun, hagain⟩

theorem Pass.linked_of_dump {s t : Pass} {root : ScopeRef} {p : Program} {text : String}
    (hroot : s.stack.root = some root) (houter : (s.store.scope root).parent = none)
    (h : (Pass.dump p).run s = .ok text t) :
    ∀ r ∈ p.regions, s.store.Linked root r.node r.around := by
  apply Classical.byContradiction
  intro hnot
  obtain ⟨e, d, hfail⟩ := Pass.dump_unlinked hroot houter hnot
  rw [h] at hfail
  cases hfail

/-- **A dump goes through exactly if every scope lies where its node does.** Then it lists, in the order
of the nodes, all symbols of all scopes that have any, each once and in the order of the names; nothing
changes except that no scope is active in the end, so a second dump writes the same. After an analysis
a dump goes through, with the scopes in the order of their numbers. Once the tree was analysed again, a dump
for the older analysis fails. -/
theorem dump_lists_linked_scopes {s : Pass} {root : ScopeRef} (h : Reached s.store s.stack)
    (hroot : s.stack.root = some root) (p : Program) :
    ((∃ text t, (Pass.dump p).run s = .ok text t) ↔
      ∀ r ∈ p.regions, s.store.Linked root r.node r.around) ∧
    (∀ text t, (Pass.dump p).run s = .ok text t →
      text = s.store.listings p ∧ (∃ log, t = s.standing none log) ∧
      ∃ u, (Pass.dump p).run t = .ok text u) ∧
    (∀ ref, ((s.store.symbolsIn ref).Pairwise fun x y =>
        utf8 (s.store.symbol x).name < utf8 (s.store.symbol y).name) ∧
      ∀ name symbol, s.store.findLocal? ref name = some symbol ↔
        symbol ∈ s.store.symbolsIn ref ∧ (s.store.symbol symbol).name = name) ∧
    ∀ (store after : Store) (a : Analysis), store.analyze p = (.ok a, after) →
      (∃ t u, (Pass.dump p).run { store := after, stack := a.stack } = .ok (after.listings p) t ∧
        (Pass.dump p).run t = .ok (after.listings p) u) ∧
      after.dump a = .ok (after.listings p) ∧
      ((after.listed p).Pairwise fun x y => after.scopeId x < after.scopeId y) ∧
      ∀ later : Store, after.scopes.size ≤ later.scopes.size →
        (later.analyze p).2.dump a = .error (.unexpectedScope 0) := by
  obtain ⟨hproper, hrooted⟩ := h.sound
  have houter := hrooted.outermost root hroot
  refine ⟨⟨?_, ?_⟩, ?_, fun ref => ⟨hproper.symbolsIn_increasing ref, hproper.findLocal?_iff ref⟩, ?_⟩
  · rintro ⟨text, t, hrun⟩
    exact Pass.linked_of_dump hroot houter hrun
  · intro hlinked
    obtain ⟨log, hrun⟩ := Pass.dump_linked hroot houter hlinked
    exact ⟨_, _, hrun⟩
  · intro text t hrun
    have hlinked := Pass.linked_of_dump hroot houter hrun
    obtain ⟨log, u, hdump, hagain⟩ := Pass.dump_twice hroot houter hlinked
    rw [hrun] at hdump
    cases hdump
    exact ⟨rfl, ⟨log, rfl⟩, u, hagain⟩
  · intro store after a hok
    obtain ⟨hstart, -, hfirst⟩ := Store.analyze_root hok
    -- The analysis is another one than that of the state, and no invariant has to be known of it.
    obtain ⟨-, -, -, hprogram, -⟩ := Store.analyze_opens hok
    obtain ⟨log, u, hdump, hagain⟩ := Pass.dump_twice (s := { store := after, stack := a.stack })
      hstart hfirst (Store.analyze_linked hok)
    refine ⟨⟨_, u, hdump, hagain⟩, ?_, Store.listed_increasing hok, ?_⟩
    · unfold Store.dump
      rw [hprogram, hdump]
    · exact fun later hlater => Store.dump_stale hok hlater

/-- Two scopes that bind the same name are listed one after the other, the inner one last. The dump
for the first analysis fails once there is a second. -/
theorem nesting_dumped :
    ∃ a after, ({} : Store).analyze nesting = (.ok a, after) ∧ Reached after a.stack ∧
      a.stack.root = some 0 ∧
      after.dump a = .ok ("context #0\n  function int f `int f(int)` const refs=0\n" ++
        "  data int n refs=0\ncontext #1 (parent #0)\n  data int a init refs=0\n" ++
        "context #2 (parent #1)\n  data int b refs=0\ncontext #3 (parent #2)\n" ++
        "  data int b refs=0\n") ∧
      (after.analyze nesting).2.dump a = .error (.unexpectedScope 0) := by
  have hn : nesting.nodes.Nodup := by decide
  have hl : nesting.untyped? ({} : Store).notes.literals = none := rfl
  obtain ⟨a, after, hok⟩ : ∃ a after, ({} : Store).analyze nesting = (.ok a, after) := by
    obtain ⟨s, -, -, hok⟩ := Store.analyze_ok hn (by decide) hl
    exact ⟨_, _, hok⟩
  have hreached := Reached.analysis .nothing hok
  obtain ⟨hroot, -⟩ := Store.analyze_root hok
  obtain ⟨-, -, -, hanalysis⟩ := dump_lists_linked_scopes
    (s := { store := after, stack := a.stack }) hreached hroot nesting
  obtain ⟨-, hdump, -, hstale⟩ := hanalysis {} after a hok
  refine ⟨a, after, hok, hreached, hroot, ?_, hstale _ (Nat.le_refl _)⟩
  have hafter : after = (({} : Store).analyze nesting).2 := by rw [hok]
  rw [hdump, hafter]
  apply congrArg Except.ok
  decide +kernel

end Semant
