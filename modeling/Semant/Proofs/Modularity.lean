import Semant.Proofs.Abreast
import Semant.Proofs.Outline.Run

/-!
# Items are checked one by one

What is reported for an item depends on the items before it only through the names that they declare
in the scope of the program, and on the items after it not at all. Of the names it matters what class
they are of, which type they have, where they were declared and, for functions, the signature. What is
inside function bodies and start blocks, and which values data begins with, does not matter.

To say this, a check is stopped between two items (`Store.upTo`) and taken on over one more
(`Item.checkFrom`). Both programs come to the item with nothing but the program's scope open
(`Pass.AtItem`), and from there `Pass.Abreast` takes over. That the states are as `AtItem` says follows
from the outlines of what has been read; the stores may have held anything before
(`Pass.Placed`). Nothing is assumed of the item itself, and a check that cannot take it stops at the
same place in both programs.
-/

set_option autoImplicit false

namespace Semant

/-! ## Checks that stop between items -/

/-- How a name of the program looks to its items. -/
def Pass.global? (s : Pass) (name : String) : Option Interface :=
  s.stack.root.bind fun root => s.store.interface? root name

/-- The check of a program as far as the end of some of its items. -/
def Store.upTo (store : Store) (p : Program) (items : List Item) :
    EStateM.Result InternalError Pass PUnit :=
  (do
    Pass.note (.cleared p.file p.clearedNodes)
    forM (.enterProgram p :: items.flatMap Item.events) Pass.visit : PassM PUnit).run
    (store.checking p)

theorem Store.upTo_eq (store : Store) (p : Program) (items : List Item) :
    store.upTo p items
      = (forM (.enterProgram p :: items.flatMap Item.events) Pass.visit : PassM PUnit).run
        ((store.checking p).logged
          ((store.checking p).log.push (.cleared p.file p.clearedNodes))) :=
  rfl

namespace Item

/-- The check of an item. -/
def checkFrom (x : Item) (s : Pass) : EStateM.Result InternalError Pass PUnit :=
  (forM x.events Pass.visit : PassM PUnit).run s

/-- What the check of an item reports. -/
def reportsFrom (x : Item) (s : Pass) : Diagnostics :=
  (Pass.after (x.checkFrom s)).diagnostics.drop s.diagnostics.length

end Item

/-- The check of an item goes the same way in two states: it stops with the same error or goes through,
reports the same, gives the same types to the expressions of the item, and leaves the names of the
program looking the same. -/
structure Item.CheckedAlike (x : Item) (s t : Pass) : Prop where
  failure : Pass.failure? (x.checkFrom s) = Pass.failure? (x.checkFrom t)
  reports : x.reportsFrom s = x.reportsFrom t
  types : ∀ e, .enterExpr e ∈ x.events →
    (Pass.after (x.checkFrom s)).store.notes.typeOf e
      = (Pass.after (x.checkFrom t)).store.notes.typeOf e
  globals : ∀ name,
    (Pass.after (x.checkFrom s)).global? name = (Pass.after (x.checkFrom t)).global? name

/-! ## Between two items -/

/-- A check from nothing that has come to an item. -/
structure Pass.AtItem (s : Pass) (x : Item) (literals : Cells Ty) : Prop where
  header : s.header = none
  function : s.function = none
  root : s.stack.root = some 0
  active : s.stack.active = some 0
  rooted : s.store.Rooted
  vacant : s.store.Vacant (.of x.events) literals

namespace Outline

variable {o : Outline} {s : Pass}

/-- The cells of nodes of which nothing is known are empty. -/
theorem Describes.vacant (h : o.Describes s) {x : Item} (hfresh : ∀ n ∈ entered x.events, o.Fresh n) :
    s.store.Vacant (.of x.events) o.literals where
  opens := by
    rintro n ⟨event, hm, hn⟩
    exact h.scopes_eq_none
      (hfresh n (List.mem_filterMap.mpr ⟨event, hm, Event.entered?_of_opens hn⟩)).regions
  symbols := by
    rintro n ⟨event, hm, hn⟩
    have hempty :=
      (hfresh n (List.mem_filterMap.mpr ⟨event, hm, Event.entered?_of_mentions hn⟩)).symbols
    rw [h.slots, symbolOf, hempty]
    rfl
  signs := by
    rintro n ⟨f, hm, rfl⟩
    rw [h.signatures]
    exact (hfresh f.id (x.grounded _ hm f.id rfl)).signatures
  types := by
    intro e hm
    have hempty := (hfresh e.id (mem_entered hm)).types
    rw [h.typeOf]
    cases e with
    | literal id token given => rfl
    | _ =>
      simp only [Outline.typeOf, Annotations.typeOf, Cells.get_empty]
      rw [hempty]
      rfl

theorem Describes.rooted (h : o.Describes s) {node : NodeId}
    (hregion : o.regions[0]? = some (node, none)) : s.store.Rooted where
  opened := h.lt_size hregion
  parent := h.parent hregion
  descends := h.descends
  bound := by
    intro name ref href
    obtain ⟨d, hd, rfl, -⟩ := (h.bindings hregion name ref).mp href
    refine ⟨h.lt_count hd, ?_⟩
    rw [Symbol.name_eq, (h.symbol hd).1]

end Outline

theorem Program.nodes_eq_cons (p : Program) :
    p.nodes = p.id :: entered (p.items.flatMap Item.events) := by
  have hexit : entered [.exitProgram p] = [] := rfl
  rw [Program.nodes, Program.events, entered_cons, entered_append, hexit, List.append_nil]
  rfl

/-- The nodes of a program, with one of its items set apart. -/
theorem Program.nodes_eq {p : Program} {before rest : List Item} {x : Item}
    (hp : p.items = before ++ x :: rest) :
    p.nodes = p.id :: (entered (before.flatMap Item.events)
      ++ (entered x.events ++ entered (rest.flatMap Item.events))) := by
  rw [p.nodes_eq_cons, hp, List.flatMap_append, List.flatMap_cons, entered_append, entered_append]

/-- The first items of a program are read no matter what comes after them. -/
theorem Program.readsFirst {p : Program} {before rest : List Item} {x : Item}
    (hp : p.items = before ++ x :: rest) (hn : p.nodes.Nodup) (literals : Cells Ty)
    (ht : ∀ event ∈ before.flatMap Item.events, ∀ token ∈ event.typeNames, token.type?.isSome) :
    ((Outline.start literals).opened p.id).Reads (before.flatMap Item.events)
      (before.flatMap Item.declares) := by
  -- They are all the items of a program that ends with them.
  refine ({ p with items := before } : Program).readsItems literals ?_ ?_
  · rw [Program.nodes_eq_cons]
    rw [Program.nodes_eq hp, ← List.cons_append] at hn
    exact (List.nodup_append.mp hn).1
  · intro token htoken
    obtain ⟨event, hm, hname⟩ := List.mem_flatMap.mp htoken
    rcases List.mem_cons.mp hm with rfl | hm
    · cases hname
    · rcases List.mem_append.mp hm with hm | hm
      · exact ht event hm token hname
      · cases List.mem_singleton.mp hm
        cases hname

/-- Nothing is known yet about the nodes of the next item. -/
theorem Program.fresh {p : Program} {before rest : List Item} {x : Item}
    (hp : p.items = before ++ x :: rest) (hn : p.nodes.Nodup) (literals : Cells Ty) {n : NodeId}
    (hm : n ∈ entered x.events) :
    (((Outline.start literals).opened p.id).run (before.flatMap Item.events)).Fresh n := by
  rw [Program.nodes_eq hp] at hn
  obtain ⟨hid, hnodes⟩ := List.nodup_cons.mp hn
  have hne : p.id ≠ n := by
    rintro rfl
    exact hid (List.mem_append_right _ (List.mem_append_left _ hm))
  have hother : n ∉ entered (before.flatMap Item.events) := by
    intro hm'
    exact (List.nodup_append.mp hnodes).2.2 n hm' n (List.mem_append_left _ hm) rfl
  have hfresh : (Outline.start literals).Fresh n := by
    refine ⟨?_, ?_, ?_, ?_⟩ <;> simp [Outline.start, Outline.Unopened]
  exact (hfresh.of_agrees (Outline.agreesAt_opened _ hne)).of_agrees
    (Outline.agreesAt_of_not_mem _ (Item.groundedList before) hother)

/-- **Between items a check has nothing open but the program.** Items that were checked without an
internal error have left their own scopes again, and have not touched what comes next. -/
theorem Pass.atItem {p : Program} {before rest : List Item} {x : Item}
    (hp : p.items = before ++ x :: rest) (hn : p.nodes.Nodup) {literals : Cells Ty}
    {log : Array LogEntry} {s : Pass}
    (hrun : (forM (.enterProgram p :: before.flatMap Item.events) Pass.visit : PassM PUnit).run
      ((Pass.start literals).logged log) = .ok ⟨⟩ s) : s.AtItem x literals := by
  have hreads := Program.readsFirst hp hn literals fun event hm =>
    Pass.named_of_run hrun event (List.mem_cons_of_mem _ hm)
  have horderly : (Outline.start literals).Orderly
      (.enterProgram p :: before.flatMap Item.events) := ⟨⟨rfl, rfl⟩, hreads.orderly⟩
  have hstart := (Outline.Describes.start literals).logged log
  have hdescribes : (((Outline.start literals).opened p.id).run
      (before.flatMap Item.events)).Describes s := by
    -- a literal without a type would have stopped the run
    cases hl : (Event.enterProgram p :: before.flatMap Item.events).findSome?
        (Event.untyped? literals) with
    | none =>
      obtain ⟨s', hok, hs', -⟩ := hstart.run_ok (Outline.Valid.start literals) horderly hl
      cases hok.symm.trans hrun
      exact hs'
    | some token =>
      obtain ⟨s', herror⟩ := hstart.run_untyped (Outline.Valid.start literals) horderly hl
      cases herror.symm.trans hrun
  have hregion : (((Outline.start literals).opened p.id).run
      (before.flatMap Item.events)).regions[0]? = some (p.id, none) := by
    obtain ⟨more, hmore⟩ := ((Outline.start literals).opened p.id).regions_run
      (before.flatMap Item.events)
    rw [← hmore]
    rfl
  obtain ⟨frame, outer, new, hframe, hframes, -⟩ := hreads.passes.grows
  cases hframe
  refine ⟨hdescribes.header.trans hreads.passes.header,
    hdescribes.function.trans hreads.passes.function, ?_, ?_, hdescribes.rooted hregion, ?_⟩
  · rw [hdescribes.root, List.head?_eq_getElem?, hregion]
    rfl
  · rw [hdescribes.active, hframes]
    exact hdescribes.recorded.mpr ⟨none, hregion⟩
  · have hvacant := hdescribes.vacant fun n hm => Program.fresh hp hn literals hm
    rw [Outline.literals_run] at hvacant
    exact hvacant

/-! ## One item in two states -/

/-- Steps that end alike stop alike, and the states they leave are alike. -/
theorem Pass.Meet.ends {R : Pass → Pass → Prop} {Q : PUnit → PUnit → Prop}
    {x y : EStateM.Result InternalError Pass PUnit} (h : Pass.Meet R Q x y) :
    Pass.failure? x = Pass.failure? y ∧ R (Pass.after x) (Pass.after y) := by
  cases x with
  | ok a s =>
    cases y with
    | ok b t => exact ⟨rfl, h.2⟩
    | error e t => exact h.elim
  | error e s =>
    cases y with
    | ok b t => exact h.elim
    | error e' t => exact ⟨congrArg some h.1, h.2⟩

theorem Pass.AtItem.abreast {s t : Pass} {x : Item} {literals literals' : Cells Ty}
    (hs : s.AtItem x literals) (ht : t.AtItem x literals')
    (hl : ∀ e, .enterExpr e ∈ x.events → e.isLiteral = true →
      Annotations.typeOf { literals } e = Annotations.typeOf { literals := literals' } e)
    (hface : ∀ name, s.store.interface? 0 name = t.store.interface? 0 name) :
    Pass.Abreast (.of x.events) s t s t where
  header := hs.header.trans ht.header.symm
  function := hs.function.trans ht.function.symm
  root := ⟨hs.root, ht.root⟩
  active := by
    rw [hs.active, ht.active]
    exact .some (.inl ⟨rfl, rfl⟩)
  inside := by
    rw [hs.active, ht.active]
    constructor
    · rintro a ⟨⟩
      exact hs.rooted.opened
    · rintro b ⟨⟩
      exact ht.rooted.opened
  store := hs.rooted.matches ht.rooted hface
  notes := by
    refine ⟨?_, ?_, ?_, ?_⟩
    · intro e he
      rw [hs.vacant.types e he, ht.vacant.types e he]
      cases e with
      -- everything but literals is still untyped on both sides
      | literal id token given => exact hl _ he rfl
      | _ => rfl
    · intro n hn
      rw [hs.vacant.symbols n hn, ht.vacant.symbols n hn]
      exact .none
    · intro n hn
      rw [hs.vacant.opens n hn, ht.vacant.opens n hn]
    · intro n hn
      rw [hs.vacant.signs n hn, ht.vacant.signs n hn]
  reported := ⟨[], (List.append_nil _).symm, (List.append_nil _).symm⟩

/-- **From nothing, an item is checked alike wherever the names of the programs look the same.** -/
theorem Pass.AtItem.checkedAlike {s t : Pass} {x : Item} {literals literals' : Cells Ty}
    (hs : s.AtItem x literals) (ht : t.AtItem x literals')
    (hl : ∀ e, .enterExpr e ∈ x.events → e.isLiteral = true →
      Annotations.typeOf { literals } e = Annotations.typeOf { literals := literals' } e)
    (hface : ∀ name, s.global? name = t.global? name) : x.CheckedAlike s t := by
  simp only [Pass.global?, hs.root, ht.root, Option.bind_some] at hface
  have hmeet := (Pass.Abreast.accord hs.rooted ht.rooted).run x.closed s t
    (hs.abreast ht hl hface)
  obtain ⟨hfailure, hends⟩ := hmeet.ends
  refine ⟨hfailure, ?_, hends.notes.type, ?_⟩
  · obtain ⟨ds, hds, hds'⟩ := hends.reported
    unfold Item.reportsFrom Item.checkFrom
    rw [hds, hds', List.drop_left, List.drop_left]
  · intro name
    unfold Pass.global? Item.checkFrom
    rw [hends.root.1, hends.root.2]
    exact hends.store.interface? name

namespace Pass.Placed

variable {base : Store} {literals : Cells Ty} {s t : Pass}

theorem diagnostics (h : Placed base literals s t) : t.diagnostics = s.diagnostics := by
  obtain ⟨log, rfl⟩ := h.above
  rfl

theorem global? (h : Placed base literals s t) (name : String) : t.global? name = s.global? name := by
  unfold Pass.global?
  rw [h.stack, h.store]
  simp only [ScopeStack.moved]
  cases s.stack.root with
  | none => rfl
  | some root =>
    simp only [Option.map_some, Option.bind_some, Store.interface?]
    rw [Store.findLocal?_link]
    cases s.store.findLocal? root name with
    | none => rfl
    | some ref => simp only [Option.map_some, Store.symbol_link]

end Pass.Placed

section OnTop

variable {store : Store} {p : Program} {before rest : List Item} {x : Item}
  (hp : p.items = before ++ x :: rest)

include hp

theorem Program.mem_events_of_first {event : Event}
    (hm : event ∈ Event.enterProgram p :: before.flatMap Item.events) : event ∈ p.events := by
  rcases List.mem_cons.mp hm with rfl | hm
  · exact List.mem_cons_self
  · refine List.mem_cons_of_mem _ (List.mem_append_left _ ?_)
    rw [hp, List.flatMap_append]
    exact List.mem_append_left _ hm

theorem Program.mem_events_of_item {event : Event} (hm : event ∈ x.events) : event ∈ p.events := by
  refine List.mem_cons_of_mem _ (List.mem_append_left _ ?_)
  rw [hp, List.flatMap_append, List.flatMap_cons]
  exact List.mem_append_right _ (List.mem_append_left _ hm)

/-- A check that has come to an item is one from nothing, on top of what its store held before. -/
theorem Store.upTo_placed (hn : p.nodes.Nodup) {t : Pass} (h : store.upTo p before = .ok ⟨⟩ t) :
    ∃ s, s.AtItem x store.notes.literals ∧
      Pass.Placed (store.annotate (store.notes.clear p)) store.notes.literals s t := by
  have haccord := Pass.Placed.accord (store.vacant_clear (p.literalsAgree_literals store.notes))
  have hnoted := haccord.note (.cleared p.file p.clearedNodes) (.cleared p.file p.clearedNodes)
  have hmeet := (hnoted.bind fun _ _ _ => haccord.run fun event hm =>
    p.closed event (Program.mem_events_of_first hp hm)) _ _
      (Pass.Placed.start (store.annotate (store.notes.clear p)) store.notes.literals)
  unfold Store.upTo Store.checking at h
  have hnote : (Pass.note (.cleared p.file p.clearedNodes)).run (Pass.start store.notes.literals)
      = .ok () ((Pass.start store.notes.literals).logged #[.cleared p.file p.clearedNodes]) := rfl
  rw [h, EStateM.run_bind, hnote] at hmeet
  dsimp only at hmeet
  cases hs : (forM (.enterProgram p :: before.flatMap Item.events) Pass.visit : PassM PUnit).run
      ((Pass.start store.notes.literals).logged #[.cleared p.file p.clearedNodes]) with
  | ok u s =>
    rw [hs] at hmeet
    exact ⟨s, Pass.atItem hp hn hs, hmeet.2⟩
  | error e s =>
    rw [hs] at hmeet
    exact hmeet.elim

/-- The item is checked on top of a store as it is from nothing. -/
theorem Pass.Placed.checkFrom {s t : Pass}
    (h : Pass.Placed (store.annotate (store.notes.clear p)) store.notes.literals s t) :
    Pass.failure? (x.checkFrom s) = Pass.failure? (x.checkFrom t) ∧
      Pass.Placed (store.annotate (store.notes.clear p)) store.notes.literals
        (Pass.after (x.checkFrom s)) (Pass.after (x.checkFrom t)) ∧
      ∀ e, .enterExpr e ∈ x.events →
        (Pass.after (x.checkFrom s)).store.notes.typeOf e
          = (Pass.after (x.checkFrom t)).store.notes.typeOf e := by
  have haccord := Pass.Placed.accord (store.vacant_clear (p.literalsAgree_literals store.notes))
  have hmeet := haccord.run (fun event hm => p.closed event (Program.mem_events_of_item hp hm)) s t h
  obtain ⟨hfailure, hends⟩ := hmeet.ends
  exact ⟨hfailure, hends, fun e he => haccord.type hends e (Program.mem_events_of_item hp he)⟩

end OnTop

/-! ## What comes after -/

/-- Diagnostics are added behind those that are there. -/
theorem stable_diagnostics (T : Territory) (ds : Diagnostics) :
    Stable T fun s => ds <+: s.diagnostics where
  logged h _ := h
  reporting h more := h.trans (List.prefix_append _ more)
  heading h _ := h
  inside h _ := h
  entering h := h
  leaving h _ _ := h
  adding h _ _ := h
  binding h _ _ := h
  signing h _ _ := h
  initing h _ := h
  counting _ _ h _ := h
  withScope h _ _ _ := h
  withSymbol h _ _ _ := h
  withSignature h _ _ _ := h
  withType h _ _ _ _ := h

/-- The type of an expression outside of a territory stays. -/
theorem stable_typeOf {T : Territory} {e : Expr}
    (he : ∀ other, T.types other → other.isLiteral = false → other.id ≠ e.id) (type : Option Ty) :
    Stable T fun s => s.store.notes.typeOf e = type where
  logged h _ := h
  reporting h _ := h
  heading h _ := h
  inside h _ := h
  entering h := h
  leaving h _ _ := h
  adding h _ _ := h
  binding h _ _ := h
  signing h _ _ := h
  initing h _ := h
  counting _ _ h _ := h
  withScope h _ _ _ := h
  withSymbol h _ _ _ := h
  withSignature h _ _ _ := h
  withType {s} h other hother hform given := by
    have hne := he other hother hform
    change (s.store.notes.withType other.id given).typeOf e = type
    cases e with
    | literal id token written => exact h
    | _ =>
      simp only [Annotations.typeOf, Annotations.withType, Cells.get_put]
      rw [if_neg hne]
      exact h

/-- What holds after some events holds after some more that keep it. -/
theorem Stable.append {T : Territory} {I : Pass → Prop} (h : Stable T I) {first rest : List Event}
    (hw : ∀ event ∈ rest, event.Within T) {s : Pass}
    (hI : I (Pass.after ((forM first Pass.visit : PassM PUnit).run s))) :
    I (Pass.after ((forM (first ++ rest) Pass.visit : PassM PUnit).run s)) := by
  rw [List.forM_append, EStateM.run_bind]
  cases hs : (forM first Pass.visit : PassM PUnit).run s with
  | ok u s' =>
    rw [hs] at hI
    exact h.run hw hI
  | error e s' =>
    rw [hs] at hI
    exact hI

theorem Item.diagnostics_checkFrom (x : Item) (s : Pass) :
    (Pass.after (x.checkFrom s)).diagnostics = s.diagnostics ++ x.reportsFrom s := by
  obtain ⟨more, hmore⟩ := (stable_diagnostics (.of x.events) s.diagnostics).run x.closed
    (List.prefix_refl s.diagnostics)
  unfold reportsFrom checkFrom
  rw [← hmore, List.drop_left]

theorem Item.within_rest (p : Program) (rest : List Item) :
    ∀ event ∈ rest.flatMap Item.events ++ [.exitProgram p],
      event.Within (.of (rest.flatMap Item.events)) := by
  intro event hm
  rcases List.mem_append.mp hm with hm | hm
  · exact Item.closedList rest event hm
  · cases List.mem_singleton.mp hm
    trivial

section Rest

variable {store : Store} {p : Program} {before rest : List Item} {x : Item}
  (hp : p.items = before ++ x :: rest)

include hp

theorem Program.events_eq_append : p.events = (.enterProgram p :: before.flatMap Item.events)
    ++ (x.events ++ (rest.flatMap Item.events ++ [.exitProgram p])) := by
  rw [Program.events, hp, List.flatMap_append, List.flatMap_cons]
  simp only [List.append_assoc, List.cons_append]

/-- An analysis goes on from an item that it has come to. -/
theorem Store.analyze_from_item {s : Pass} (h : store.upTo p before = .ok ⟨⟩ s) :
    (store.analyze p).2 = (Pass.after ((forM (x.events ++ (rest.flatMap Item.events
        ++ [.exitProgram p])) Pass.visit : PassM PUnit).run s)).store ∧
      ∀ a after, store.analyze p = (.ok a, after) →
        a.diagnostics = (Pass.after ((forM (x.events ++ (rest.flatMap Item.events
          ++ [.exitProgram p])) Pass.visit : PassM PUnit).run s)).diagnostics := by
  rw [store.analyze_eq, Pass.check_run, Program.events_eq_append hp, List.forM_append,
    EStateM.run_bind, ← Store.upTo_eq, h]
  dsimp only
  cases (forM (x.events ++ (rest.flatMap Item.events ++ [.exitProgram p])) Pass.visit
      : PassM PUnit).run s with
  | ok u t =>
    refine ⟨rfl, ?_⟩
    rintro a after ⟨⟩
    rfl
  | error e t =>
    refine ⟨rfl, ?_⟩
    rintro a after ⟨⟩

/-- Later items do not touch the expressions of an item. -/
theorem Store.typeOf_analyze (hn : p.nodes.Nodup) {s : Pass} (h : store.upTo p before = .ok ⟨⟩ s)
    {e : Expr} (he : .enterExpr e ∈ x.events) :
    (store.analyze p).2.notes.typeOf e = (Pass.after (x.checkFrom s)).store.notes.typeOf e := by
  rw [(Store.analyze_from_item hp h).1]
  refine (stable_typeOf ?_ _).append (Item.within_rest p rest) rfl
  intro other hother _ hid
  rw [Program.nodes_eq hp] at hn
  have hnodes := (List.nodup_append.mp (List.nodup_cons.mp hn).2).2.1
  exact (List.nodup_append.mp hnodes).2.2 e.id (mem_entered he) other.id (mem_entered hother)
    hid.symm

/-- What is reported for an item stands behind what was reported before. -/
theorem Store.diagnostics_analyze {s : Pass} (h : store.upTo p before = .ok ⟨⟩ s) {a : Analysis}
    {after : Store} (ha : store.analyze p = (.ok a, after)) :
    ∃ later, a.diagnostics = s.diagnostics ++ x.reportsFrom s ++ later := by
  rw [(Store.analyze_from_item hp h).2 a after ha]
  have hitem : s.diagnostics ++ x.reportsFrom s <+: (Pass.after (x.checkFrom s)).diagnostics :=
    ⟨[], by rw [List.append_nil, x.diagnostics_checkFrom s]⟩
  obtain ⟨later, hlater⟩ :=
    (stable_diagnostics _ (s.diagnostics ++ x.reportsFrom s)).append (Item.within_rest p rest) hitem
  exact ⟨later, hlater.symm⟩

end Rest

/-- A program with typed literals is checked up to each of its items, and over it. -/
theorem Store.upTo_ok {store : Store} {p : Program} {before rest : List Item} {x : Item}
    (hp : p.items = before ++ x :: rest) (hn : p.nodes.Nodup)
    (ht : ∀ token ∈ p.typeNames, token.type?.isSome)
    (hl : ∀ e token, .exitLiteral e token ∈ p.events → (store.notes.typeOf e).isSome) :
    ∃ s s', store.upTo p before = .ok ⟨⟩ s ∧ x.checkFrom s = .ok ⟨⟩ s' := by
  obtain ⟨final, -, -, hok⟩ :=
    Store.analyze_ok hn ht ((Program.untyped?_eq_none_iff hn ht store.notes).mpr hl)
  rw [store.analyze_eq, Pass.check_run, Program.events_eq_append hp, List.forM_append,
    EStateM.run_bind, ← Store.upTo_eq] at hok
  -- Had one of the parts stopped, the analysis would have.
  cases hs : store.upTo p before with
  | error e s =>
    rw [hs] at hok
    cases hok
  | ok u s =>
    rw [hs, List.forM_append] at hok
    dsimp only at hok
    rw [EStateM.run_bind] at hok
    cases hs' : x.checkFrom s with
    | error e s' =>
      unfold Item.checkFrom at hs'
      rw [hs'] at hok
      cases hok
    | ok u s' => exact ⟨s, s', rfl, hs'⟩

section Alike

variable {store store' : Store} {p p' : Program} {before rest before' rest' : List Item} {x : Item}

/-- In stores that held other things before, an item is still checked alike. -/
theorem Store.checkedAlike
    (hp : p.items = before ++ x :: rest) (hp' : p'.items = before' ++ x :: rest')
    (hn : p.nodes.Nodup) (hn' : p'.nodes.Nodup)
    (hl : ∀ e, .enterExpr e ∈ x.events → e.isLiteral = true →
      store.notes.typeOf e = store'.notes.typeOf e)
    {s t : Pass} (hs : store.upTo p before = .ok ⟨⟩ s) (ht : store'.upTo p' before' = .ok ⟨⟩ t)
    (hsame : ∀ name, s.global? name = t.global? name) : x.CheckedAlike s t := by
  obtain ⟨s₀, hitem, hplaced⟩ := Store.upTo_placed hp hn hs
  obtain ⟨t₀, hitem', hplaced'⟩ := Store.upTo_placed hp' hn' ht
  have hliterals : ∀ e, .enterExpr e ∈ x.events → e.isLiteral = true →
      Annotations.typeOf { literals := store.notes.literals } e
        = Annotations.typeOf { literals := store'.notes.literals } e := by
    intro e he hform
    cases e with
    | literal id token given => exact hl _ he rfl
    | _ => cases hform
  have hface : ∀ name, s₀.global? name = t₀.global? name := by
    intro name
    rw [← hplaced.global?, ← hplaced'.global?]
    exact hsame name
  -- what is said about the two runs from nothing is carried to the stores by `Placed`
  have halike := hitem.checkedAlike hitem' hliterals hface
  obtain ⟨hfailure, hends, htypes⟩ := Pass.Placed.checkFrom hp hplaced
  obtain ⟨hfailure', hends', htypes'⟩ := Pass.Placed.checkFrom hp' hplaced'
  refine ⟨hfailure.symm.trans (halike.failure.trans hfailure'), ?_, ?_, ?_⟩
  · have hreports := halike.reports
    unfold Item.reportsFrom at hreports ⊢
    rw [hends.diagnostics, hends'.diagnostics, hplaced.diagnostics, hplaced'.diagnostics]
    exact hreports
  · intro e he
    exact (htypes e he).symm.trans ((halike.types e he).trans (htypes' e he))
  · intro name
    rw [hends.global?, hends'.global?]
    exact halike.globals name

/-- **Items are checked modularly.** Let two programs without repeated nodes have an item in common,
whose literals have the same types in both stores. A check comes to the item and over it if all types
of its program are named and all literals have one. Let both have come to it, with the names of the
two programs looking the same: the same names, each of the same class and type, declared at the same
place and with the same signature. Then the item is checked alike. What is reported for it is the same
list, its expressions get the same types, also in the end, and it adds the same names to the program;
or both checks stop at it with the same error. What is reported for the item stands in the diagnostics
of the analyses, whatever comes after it. -/
theorem analyze_checks_items_modularly
    (hp : p.items = before ++ x :: rest) (hp' : p'.items = before' ++ x :: rest')
    (hn : p.nodes.Nodup) (hn' : p'.nodes.Nodup)
    (hl : ∀ e, .enterExpr e ∈ x.events → e.isLiteral = true →
      store.notes.typeOf e = store'.notes.typeOf e) :
    ((∀ token ∈ p.typeNames, token.type?.isSome) →
      (∀ e token, .exitLiteral e token ∈ p.events → (store.notes.typeOf e).isSome) →
        ∃ s s', store.upTo p before = .ok ⟨⟩ s ∧ x.checkFrom s = .ok ⟨⟩ s') ∧
    ∀ s t, store.upTo p before = .ok ⟨⟩ s → store'.upTo p' before' = .ok ⟨⟩ t →
      (∀ name, s.global? name = t.global? name) →
        x.CheckedAlike s t ∧
        (∀ e, .enterExpr e ∈ x.events →
          (store.analyze p).2.notes.typeOf e = (store'.analyze p').2.notes.typeOf e) ∧
        (∀ a after, store.analyze p = (.ok a, after) →
          ∃ later, a.diagnostics = s.diagnostics ++ x.reportsFrom s ++ later) ∧
        ∀ a after, store'.analyze p' = (.ok a, after) →
          ∃ later, a.diagnostics = t.diagnostics ++ x.reportsFrom t ++ later := by
  refine ⟨Store.upTo_ok hp hn, ?_⟩
  intro s t hs ht hsame
  have hchecked := Store.checkedAlike hp hp' hn hn' hl hs ht hsame
  refine ⟨hchecked, ?_, fun _ _ => Store.diagnostics_analyze hp hs,
    fun _ _ => Store.diagnostics_analyze hp' ht⟩
  intro e he
  rw [Store.typeOf_analyze hp hn hs he, Store.typeOf_analyze hp' hn' ht he]
  exact hchecked.types e he

end Alike

/-- A function of one parameter. -/
def unaryFunction (body : List Stmt) : Item :=
  let at' (line column : UInt32) : Position := ⟨"call.dk", line, column⟩
  let int (line column : UInt32) : Token := ⟨.integerType, "int", at' line column⟩
  .function
    { id := 1
      isIterator := false
      returns := int 1 1
      name := ⟨"f", at' 1 5⟩
      params := [⟨2, false, int 1 7, ⟨"a", at' 1 11⟩⟩]
      body := .mk 3 ⟨.leftBrace, "\x7b", at' 1 14⟩ body }

/-- A call of the function with two arguments. -/
def binaryCall : Item :=
  let at' (line column : UInt32) : Position := ⟨"call.dk", line, column⟩
  .start
    { keyword := ⟨.startWord, "start", at' 4 1⟩
      body := .mk 4 ⟨.leftBrace, "\x7b", at' 4 7⟩
        [.expr (.call 5 105 ⟨"f", at' 5 3⟩
          [.literal 6 ⟨.integerLiteral, "1", at' 5 5⟩ (some .int),
          .literal 7 ⟨.integerLiteral, "2", at' 5 8⟩ (some .int)])] }

/-- A block with a declaration of its own. -/
def declaringStart : Item :=
  let at' (line column : UInt32) : Position := ⟨"call.dk", line, column⟩
  .start
    { keyword := ⟨.startWord, "start", at' 7 1⟩
      body := .mk 8 ⟨.leftBrace, "\x7b", at' 7 7⟩
        [.data
          { decl := ⟨9, false, ⟨.integerType, "int", at' 8 3⟩, ⟨"n", at' 8 7⟩⟩, init := none }] }

/-- The call comes right after the function. -/
def callingNext : Program :=
  { id := 0, file := "call.dk", items := [unaryFunction [], binaryCall] }

/-- There is a block before the function, whose body uses a name that nobody declared, and after the
call the name of the function is declared again. -/
def callingLater : Program :=
  let at' (line column : UInt32) : Position := ⟨"call.dk", line, column⟩
  { id := 0
    file := "call.dk"
    items :=
      [declaringStart, unaryFunction [.expr (.var 10 110 ⟨"b", at' 2 3⟩)], binaryCall,
      .data { decl := ⟨11, false, ⟨.integerType, "int", at' 9 1⟩, ⟨"f", at' 9 5⟩⟩, init := none }] }

theorem Pass.eq_ok_of_failure? {r : EStateM.Result InternalError Pass PUnit}
    (h : Pass.failure? r = none) : r = .ok ⟨⟩ (Pass.after r) := by
  cases r with
  | ok u s => rfl
  | error e s => cases h

theorem Pass.global?_of_single {s : Pass} (root : ScopeRef) (only : String) (ref : SymbolRef)
    (hroot : s.stack.root = some root) (hb : (s.store.scope root).bindings = [(only, ref)])
    (name : String) :
    s.global? name = if name = only then some (s.store.symbol ref).interface else none := by
  rw [Pass.global?, hroot]
  simp only [Option.bind_some, Store.interface?, Store.findLocal?, hb, Bindings.find?_cons]
  split <;> rfl

/-- The call is reported alike in both programs. -/
theorem binaryCall_checkedAlike :
    callingNext.nodes.Nodup ∧ callingLater.nodes.Nodup ∧
      ∃ s t, ({} : Store).upTo callingNext [unaryFunction []] = .ok ⟨⟩ s ∧
        ({} : Store).upTo callingLater (callingLater.items.take 2) = .ok ⟨⟩ t ∧
        binaryCall.reportsFrom s = [⟨.error, ⟨"call.dk", 5, 3⟩, .call (.arityMismatch 1 2)⟩] ∧
        binaryCall.reportsFrom t = [⟨.error, ⟨"call.dk", 5, 3⟩, .call (.arityMismatch 1 2)⟩] := by
  have hn : callingNext.nodes.Nodup := by decide
  have hn' : callingLater.nodes.Nodup := by decide
  have hs := Pass.eq_ok_of_failure?
    (show Pass.failure? (({} : Store).upTo callingNext [unaryFunction []]) = none by decide +kernel)
  have ht := Pass.eq_ok_of_failure?
    (show Pass.failure? (({} : Store).upTo callingLater (callingLater.items.take 2)) = none by
      decide +kernel)
  have hsame : ∀ name, (Pass.after (({} : Store).upTo callingNext [unaryFunction []])).global? name
      = (Pass.after (({} : Store).upTo callingLater (callingLater.items.take 2))).global? name := by
    intro name
    rw [Pass.global?_of_single 0 "f" 0 (by decide +kernel) (by decide +kernel),
      Pass.global?_of_single 0 "f" 1 (by decide +kernel) (by decide +kernel)]
    have hface : ((Pass.after (({} : Store).upTo callingNext [unaryFunction []])).store.symbol
        0).interface = ((Pass.after (({} : Store).upTo callingLater
          (callingLater.items.take 2))).store.symbol 1).interface := by decide +kernel
    rw [hface]
  have hreports : binaryCall.reportsFrom
      (Pass.after (({} : Store).upTo callingNext [unaryFunction []]))
        = [⟨.error, ⟨"call.dk", 5, 3⟩, .call (.arityMismatch 1 2)⟩] := by decide +kernel
  have halike := ((@analyze_checks_items_modularly {} {} callingNext callingLater [unaryFunction []] []
    (callingLater.items.take 2) (callingLater.items.drop 3) binaryCall rfl rfl hn hn'
    fun _ _ _ => rfl).2 _ _ hs ht hsame).1
  exact ⟨hn, hn', _, _, hs, ht, hreports, halike.reports.symm.trans hreports⟩

end Semant
