import Mathlib.Data.List.Nodup
import Semant.Proofs.Outline.Run
import Semant.Proofs.Load
import Semant.Proofs.WellFormed

/-!
# Programs without errors are the well-formed ones

The check reports as it goes; the rules of `Semant.Proofs.WellFormed` are read off the tree. This
file proves that the check has no error to report if and only if the rules hold, by one induction
over the tree in which both sides move on together.

A place of the rules and a state of the check belong together when they see the same declarations
(`Outline.Shows`). The place must not see a name twice: the rules look names up by membership, the
check takes the oldest, and only under this condition do the two mean the same. It holds as long as
no error was reported, and that is why each step of the induction first looks at what was read
before: either it has an error, and both sides fail there, or the names are still distinct.
-/

set_option autoImplicit false

namespace Semant

/-! ## Places -/

namespace Site

/-- No name can be seen twice. -/
def Distinct (site : Site) : Prop := (site.visible.map Definition.name).Nodup

@[simp]
theorem declaring_nil (site : Site) : site.declaring [] = site := by
  simp [declaring]

theorem declaring_append (site : Site) (ds ds' : List Definition) :
    site.declaring (ds ++ ds') = (site.declaring ds).declaring ds' := by
  simp [declaring]

theorem Distinct.declare {site : Site} (h : site.Distinct) {d : Definition}
    (hd : site.Free d.name) : (site.declaring [d]).Distinct := by
  simp only [Distinct, declaring, List.map_append, List.nodup_append]
  refine ⟨h, by simp, ?_⟩
  intro name hm name' hm' heq
  obtain ⟨d', hd', rfl⟩ := List.mem_map.mp hm
  cases List.mem_singleton.mp hm'
  exact hd d' hd' heq

/-- Names that were free one after the other are distinct. -/
theorem Distinct.params {params : List Decl} {site : Site} (h : site.Distinct)
    (hp : Decl.AllWellFormed params site) : (site.declaring (params.map .data)).Distinct := by
  induction params generalizing site with
  | nil => simpa using h
  | cons d rest ih =>
    obtain ⟨hfree, -, hrest⟩ := hp
    have hall := ih (h.declare (d := .data d) hfree) hrest
    rwa [← declaring_append] at hall

theorem Distinct.stmt {site : Site} (h : site.Distinct) {s : Stmt} (hs : s.WellFormed site) :
    (site.declaring s.declares).Distinct := by
  cases s with
  | data d => exact h.declare (d := .data d.decl) hs.1
  | _ => simpa [Stmt.declares] using h

theorem Distinct.item {site : Site} (h : site.Distinct) {item : Item}
    (hi : item.WellFormed site) : (site.declaring item.declares).Distinct := by
  cases item with
  | data d => exact h.declare (d := .data d.decl) hi.1
  | function f => exact h.declare (d := .function f) hi.1
  | _ => simpa [Item.declares] using h

end Site

/-! ## Events without errors -/

namespace Outline

/-- The events report no error. -/
def Clean (o : Outline) : List Event → Prop
  | [] => True
  | event :: rest => (o.reports event).errorCount = 0 ∧ (o.step event).Clean rest

@[simp]
theorem clean_append (o : Outline) (first rest : List Event) :
    o.Clean (first ++ rest) ↔ o.Clean first ∧ (o.run first).Clean rest := by
  induction first generalizing o with
  | nil => simp [Clean]
  | cons event first ih => simp [Clean, ih, and_assoc]

theorem clean_iff_journal (o : Outline) (events : List Event) :
    o.Clean events ↔ Diagnostics.errorCount ((o.journal events).flatMap Prod.snd) = 0 := by
  induction events generalizing o with
  | nil => simp [Clean, journal, Diagnostics.errorCount, Diagnostics.ofSeverity]
  | cons event rest ih => simp [Clean, journal, ih]

theorem clean_quiet {o : Outline} {event : Event} (h : o.reports event = []) :
    (o.reports event).errorCount = 0 := by
  rw [h]
  rfl

/-- Two events that have nothing to say, around some others. -/
theorem clean_around {o : Outline} {first last : Event} {events : List Event}
    (hfirst : o.reports first = []) (hlast : ((o.step first).run events).reports last = []) :
    o.Clean (first :: (events ++ [last])) ↔ (o.step first).Clean events := by
  simp [Clean, hfirst, hlast, Diagnostics.errorCount, Diagnostics.ofSeverity]

/-- A rule that accepts reports no error, and one that rejects does. -/
theorem clean_ruling (position : Position) (r : Except TypeError Checked) :
    (ruling position r).errorCount = 0 ↔ ∃ checked, r = .ok checked := by
  cases r with
  | error e => simp [ruling, Diagnostics.errorCount, Diagnostics.ofSeverity]
  | ok checked =>
    obtain ⟨type, warning⟩ := checked
    cases warning <;> simp [ruling, Diagnostics.errorCount, Diagnostics.ofSeverity]

theorem clean_unresolved (o : Outline) (name : Identifier) (use : Use) :
    (o.unresolved name use).errorCount = 0 ↔ ∃ entry, resolution o.scope name use = .ok entry := by
  unfold unresolved
  cases resolution o.scope name use <;> simp [Diagnostics.errorCount, Diagnostics.ofSeverity]

theorem clean_duplicate (o : Outline) (d : Definition) :
    (o.duplicate d).errorCount = 0 ↔ lookup o.scope d.name = none := by
  unfold duplicate
  cases lookup o.scope d.name <;> simp [Diagnostics.errorCount, Diagnostics.ofSeverity]

theorem clean_valueless (d : Definition) : (valueless d).errorCount = 0 ↔ d.type ≠ .nothing := by
  unfold valueless
  by_cases h : d.type = .nothing <;> simp [h, Diagnostics.errorCount, Diagnostics.ofSeverity]

/-! ## Places and outlines -/

/-- The outline sees what the place sees, and no name twice. -/
structure Shows (o : Outline) (site : Site) : Prop where
  literals : o.literals = site.literals
  visible : o.scope.map Entry.definition = site.visible
  returns : o.function.map (·.returns.named) = site.returns
  distinct : site.Distinct

theorem Shows.free {o : Outline} {site : Site} (h : o.Shows site) (name : String) :
    lookup o.scope name = none ↔ site.Free name := by
  rw [lookup, List.find?_eq_none, Site.Free, ← h.visible]
  simp

/-- A declaration that can be seen is the one that is found under its name. -/
theorem Shows.lookup {o : Outline} {site : Site} (h : o.Shows site) {d : Definition}
    (hd : d ∈ site.visible) : ∃ entry, Semant.lookup o.scope d.name = some entry ∧ entry.definition = d := by
  have hdistinct := h.distinct
  rw [Site.Distinct, ← h.visible] at hdistinct
  rw [← h.visible] at hd
  obtain ⟨entry, hentry, rfl⟩ := List.mem_map.mp hd
  obtain ⟨old, hold⟩ := lookup_isSome_of_mem hentry
  refine ⟨old, hold, ?_⟩
  exact List.inj_on_of_nodup_map hdistinct (List.mem_map_of_mem (lookup_mem hold)) hd
    (lookup_name hold)

theorem Shows.resolution {o : Outline} {site : Site} (h : o.Shows site) {d : Definition}
    (use : Use) (hd : d ∈ site.visible) {name : Identifier} (hname : d.name = name.name)
    (huse : d.cls = use.expects) :
    ∃ entry, Semant.resolution o.scope name use = .ok entry ∧ entry.definition = d := by
  obtain ⟨entry, hl, rfl⟩ := h.lookup hd
  exact ⟨entry, resolution_ok.mpr ⟨hname ▸ hl, huse⟩, rfl⟩

theorem Shows.of_resolution {o : Outline} {site : Site} (h : o.Shows site) {name : Identifier}
    {use : Use} {entry : Entry} (hr : Semant.resolution o.scope name use = .ok entry) :
    entry.definition ∈ site.visible ∧ entry.definition.name = name.name ∧
      entry.definition.cls = use.expects := by
  obtain ⟨hl, hcls⟩ := resolution_ok.mp hr
  rw [← h.visible]
  exact ⟨List.mem_map_of_mem (lookup_mem hl), lookup_name hl, hcls⟩

theorem Shows.grows {o o' : Outline} {site : Site} (h : o.Shows site) {ds : List Definition}
    (hg : o.Grows o' ds) (hf : o'.function = o.function) (hl : o'.literals = o.literals)
    (hd : (site.declaring ds).Distinct) : o'.Shows (site.declaring ds) where
  literals := hl.trans h.literals
  visible := by rw [hg.scope, h.visible]; rfl
  returns := by rw [hf, h.returns]; rfl
  distinct := hd

/-- The outline stands at the place, and the events are what it reads next. -/
structure StandsAt (o : Outline) (site : Site) (events : List Event) : Prop where
  ready : o.Ready events
  rest : o.AtRest
  shows : o.Shows site
  typed : ∀ event ∈ events, event.untyped? site.literals = none

namespace StandsAt

variable {o : Outline} {site : Site} {first rest : List Event}

theorem left (h : o.StandsAt site (first ++ rest)) : o.StandsAt site first :=
  ⟨h.ready.left, h.rest, h.shows, fun event hm => h.typed event (List.mem_append_left _ hm)⟩

/-- Where the outline stands after it has read some events. -/
theorem next {ds : List Definition} (h : o.StandsAt site (first ++ rest)) (hg : Grounded first)
    (hr : o.Reads first ds) (hd : (site.declaring ds).Distinct) :
    (o.run first).StandsAt (site.declaring ds) rest where
  ready := h.ready.rest hg hr.inside
  rest := hr.passes.atRest h.rest
  shows := h.shows.grows hr.passes.grows hr.passes.function (by simp) hd
  typed := fun event hm => h.typed event (List.mem_append_right _ hm)

theorem past (h : o.StandsAt site (first ++ rest)) (hg : Grounded first) (hr : o.Reads first []) :
    (o.run first).StandsAt site rest := by
  have hnext := h.next hg hr (by simpa using h.shows.distinct)
  rwa [Site.declaring_nil] at hnext

theorem skip {event : Event} (h : o.StandsAt site (event :: rest)) : o.StandsAt site rest :=
  ⟨h.ready.skip, h.rest, h.shows, fun ev hm => h.typed ev (List.mem_cons_of_mem _ hm)⟩

end StandsAt

/-! ## Expressions -/

/-- The check has no error in an expression if and only if it has a type, and finds that type. -/
structure Judges (o : Outline) (site : Site) (e : Expr) : Prop where
  sound : o.Clean e.events → ∃ type, HasType site e type
  complete : ∀ {type : Ty}, HasType site e type →
    o.Clean e.events ∧ (o.run e.events).typeOf e = some type

/-- An expression that is typed by its last event but one. -/
theorem Judges.last {o : Outline} {site : Site} {e : Expr} (first : List Event) {exit : Event}
    {type : Option Ty} (hevents : e.events = first ++ [exit, .exitExpr e])
    (hlit : e.isLiteral = false) (hstep : (o.run first).step exit = (o.run first).settle e type)
    (hsound : o.Clean first → ((o.run first).reports exit).errorCount = 0 →
      ∃ type, HasType site e type)
    (hcomplete : ∀ t, HasType site e t →
      o.Clean first ∧ ((o.run first).reports exit).errorCount = 0 ∧ type = some t) :
    o.Judges site e := by
  have hclean : o.Clean e.events ↔ o.Clean first ∧ ((o.run first).reports exit).errorCount = 0 := by
    rw [hevents, clean_append]
    exact ⟨fun h => ⟨h.1, h.2.1⟩, fun h => ⟨h.1, h.2, rfl, trivial⟩⟩
  have htype : (o.run e.events).typeOf e = type := by
    rw [hevents, run_append, run_cons, run_cons, hstep]
    exact typeOf_settle _ hlit type
  refine ⟨fun h => hsound (hclean.mp h).1 (hclean.mp h).2, fun h => ?_⟩
  obtain ⟨hfirst, hexit, rfl⟩ := hcomplete _ h
  exact ⟨hclean.mpr ⟨hfirst, hexit⟩, htype⟩

/-- An operation that is typed by a rule, once its operands have types. -/
theorem Judges.rule {o : Outline} {site : Site} {e : Expr} (first : List Event) {exit : Event}
    (position : Position) (hevents : e.events = first ++ [exit, .exitExpr e])
    (hlit : e.isLiteral = false)
    (hstep : (o.run first).step exit = (o.run first).settle e ((o.run first).answer exit))
    (hm : (o.run first).remarks exit = [])
    (hsound : o.Clean first → ∃ r, (o.run first).question exit = some (position, r) ∧
      ∀ checked, r = .ok checked → HasType site e checked.type)
    (hcomplete : ∀ t, HasType site e t → o.Clean first ∧ ∃ checked : Checked,
      (o.run first).question exit = some (position, .ok checked) ∧ checked.type = t) :
    o.Judges site e := by
  have hreports : ∀ {r}, (o.run first).question exit = some (position, r) →
      (o.run first).reports exit = ruling position r := by
    intro r hq
    simp [reports, hq, hm]
  refine Judges.last first hevents hlit hstep ?_ ?_
  · intro hc he
    obtain ⟨r, hq, htype⟩ := hsound hc
    rw [hreports hq] at he
    obtain ⟨checked, hr⟩ := (clean_ruling _ _).mp he
    exact ⟨_, htype checked hr⟩
  · intro t ht
    obtain ⟨hc, checked, hq, rfl⟩ := hcomplete t ht
    refine ⟨hc, ?_, by simp [answer, hq, Except.toOption]⟩
    rw [hreports hq]
    exact (clean_ruling _ _).mpr ⟨checked, rfl⟩

/-- A use of a name has no error if the name means what the use asks for. -/
theorem clean_use {o : Outline} {event : Event} {name : Identifier} {use : Use}
    (hm : o.remarks event = o.unresolved name use) (hq : o.question event = none) :
    (o.reports event).errorCount = 0 ↔ ∃ entry, Semant.resolution o.scope name use = .ok entry := by
  rw [← clean_unresolved, reports, hm, hq]
  simp

/-- A call of a function has no error of its own if its arguments fit. -/
theorem clean_exitCall {o : Outline} {e : Expr} {place : SymbolRef} {f : Function}
    (hs : o.symbolOf e.nameNode = some ⟨place, .function f⟩) (callee : Identifier) (args : List Expr) :
    (o.reports (.exitCall e callee args)).errorCount = 0
      ↔ f.signature.validate (args.map o.typeOf) = .ok () := by
  have hreports : o.reports (.exitCall e callee args) = o.misfit e callee args := by
    simp [reports, remarks, question]
  rw [hreports]
  simp only [misfit, hs]
  cases f.signature.validate (args.map o.typeOf) <;>
    simp [Diagnostics.errorCount, Diagnostics.ofSeverity]

theorem StandsAt.refer {o : Outline} {site : Site} {events : List Event} {node : NodeId}
    {name : Identifier} {use : Use} (h : o.StandsAt site events)
    (hr : (o.refer node name use).Ready events) : (o.refer node name use).StandsAt site events :=
  ⟨hr, ⟨h.rest.header, h.rest.returns⟩,
    ⟨h.shows.literals, h.shows.visible, h.shows.returns, h.shows.distinct⟩, h.typed⟩

end Outline

theorem knownTypes?_map_some (types : List Ty) : knownTypes? (types.map some) = some types := by
  induction types with
  | nil => rfl
  | cons type rest ih => simp [knownTypes?, ih]

/-- Arguments of known types fit a signature if they are of exactly its types. -/
theorem Signature.validate_known (s : Signature) (types : List Ty) :
    s.validate (types.map some) = .ok () ↔ types = s.params := by
  unfold Signature.validate
  rw [knownTypes?_map_some]
  obtain ⟨returns, name, params⟩ := s
  by_cases ht : types = params
  · subst ht
    simp [Signature.arity]
  · have hne : params ≠ types := fun h => ht h.symm
    by_cases hl : params.length = types.length <;> simp [Signature.arity, hl, hne, ht]

namespace Outline

/-- The same of a list of expressions. -/
structure JudgesAll (o : Outline) (site : Site) (es : List Expr) : Prop where
  sound : o.Clean (Expr.eventsOfList es) → ∃ types, HaveTypes site es types
  complete : ∀ {types : List Ty}, HaveTypes site es types →
    o.Clean (Expr.eventsOfList es) ∧
      es.map (o.run (Expr.eventsOfList es)).typeOf = types.map some

theorem Judges.variable {o : Outline} {site : Site} {id node : NodeId} {name : Identifier}
    (h : o.Shows site) : o.Judges site (.var id node name) := by
  let first : List Event := [.enterExpr (.var id node name), .enterVariable (.var id node name) name]
  have hsymbol : (o.run first).symbolOf node = (Semant.resolution o.scope name .value).toOption := by
    simp [first, Outline.symbolOf, Outline.step, Outline.refer, Expr.nameNode, Cells.get_put]
  have hclean : o.Clean first ↔ ∃ entry, Semant.resolution o.scope name .value = .ok entry :=
    ⟨fun hc => (clean_use rfl rfl).mp hc.2.1, fun hc => ⟨rfl, (clean_use rfl rfl).mpr hc, trivial⟩⟩
  refine Judges.last first rfl rfl rfl ?_ ?_
  · intro hc _
    obtain ⟨⟨place, d⟩, hr⟩ := hclean.mp hc
    obtain ⟨hmem, hname, hcls⟩ := h.of_resolution hr
    cases d with
    | data d => exact ⟨_, .var hmem hname⟩
    | function f => cases hcls
  · intro t ht
    cases ht with
    | var hmem hname =>
      obtain ⟨⟨place, d⟩, hr, rfl⟩ := h.resolution .value hmem hname rfl
      refine ⟨hclean.mpr ⟨_, hr⟩, rfl, ?_⟩
      rw [show (Expr.var id node name).nameNode = node from rfl, hsymbol, hr]
      rfl

/-- A call is read in three parts: its name, its arguments, and how these fit together. -/
theorem Judges.call {o : Outline} {site : Site} {id node : NodeId} {callee : Identifier}
    {args : List Expr} (h : o.Shows site) (hnew : node ∉ entered (Expr.eventsOfList args))
    (hargs : (o.refer node callee .callee).JudgesAll site args) :
    o.Judges site (.call id node callee args) := by
  let e : Expr := .call id node callee args
  let first : List Event := [.enterExpr e, .enterCall e callee args] ++ Expr.eventsOfList args
  have hsymbol : (o.run first).symbolOf node
      = (Semant.resolution o.scope callee .callee).toOption := by
    have hkept := (o.refer node callee .callee).agreesAt_of_not_mem (Expr.groundedList args) hnew
    have hrun : o.run first = (o.refer node callee .callee).run (Expr.eventsOfList args) := rfl
    rw [hrun, Outline.symbolOf, hkept.symbols]
    simp [Outline.refer, Cells.get_put]
  have hclean : o.Clean first ↔ (∃ entry, Semant.resolution o.scope callee .callee = .ok entry) ∧
      (o.refer node callee .callee).Clean (Expr.eventsOfList args) :=
    ⟨fun hc => ⟨(clean_use rfl rfl).mp hc.2.1, hc.2.2⟩,
      fun hc => ⟨rfl, (clean_use rfl rfl).mpr hc.1, hc.2⟩⟩
  -- Whether the arguments fit is asked only once all of them have types.
  have hfits : ∀ {types : List Ty} {place : SymbolRef} {f : Function}, HaveTypes site args types →
      Semant.resolution o.scope callee .callee = .ok ⟨place, .function f⟩ →
      (((o.run first).reports (.exitCall e callee args)).errorCount = 0 ↔
        types = f.signature.params) := by
    intro types place f ht hr
    rw [hr] at hsymbol
    rw [clean_exitCall hsymbol callee args,
      show args.map (o.run first).typeOf = types.map some from (hargs.complete ht).2,
      Signature.validate_known]
  refine Judges.last first rfl rfl rfl ?_ ?_
  · intro hc hexit
    obtain ⟨⟨⟨place, d⟩, hr⟩, hclean⟩ := hclean.mp hc
    obtain ⟨hmem, hname, hcls⟩ := h.of_resolution hr
    obtain ⟨types, ht⟩ := hargs.sound hclean
    cases d with
    | data d => cases hcls
    | function f =>
      cases (hfits ht hr).mp hexit
      exact ⟨_, .call hmem hname ht⟩
  · intro t ht
    cases ht with
    | call hmem hname ht =>
      obtain ⟨⟨place, d⟩, hr, rfl⟩ := h.resolution .callee hmem hname rfl
      refine ⟨hclean.mpr ⟨⟨_, hr⟩, (hargs.complete ht).1⟩, (hfits ht hr).mpr rfl, ?_⟩
      rw [show (Expr.call id node callee args).nameNode = node from rfl, hsymbol, hr]
      rfl

theorem Judges.operation {o : Outline} {site : Site} {e operand : Expr} {exit : Event}
    (position : Position) (rule : Ty → Except TypeError Checked)
    (hevents : e.events = (.enterExpr e :: operand.events) ++ [exit, .exitExpr e])
    (hlit : e.isLiteral = false)
    (hstep : ∀ o : Outline, o.step exit = o.settle e (o.answer exit))
    (hm : ∀ o : Outline, o.remarks exit = [])
    (hq : ∀ o : Outline, o.question exit = (o.typeOf operand).map fun t => (position, rule t))
    (htype : ∀ t, HasType site e t ↔
      ∃ s checked, HasType site operand s ∧ rule s = .ok checked ∧ checked.type = t)
    (hx : o.Judges site operand) : o.Judges site e := by
  refine Judges.rule (.enterExpr e :: operand.events) position hevents hlit (hstep _) (hm _) ?_ ?_
  · intro hc
    obtain ⟨s, hs⟩ := hx.sound hc.2
    refine ⟨rule s, ?_, fun checked hr => (htype _).mpr ⟨s, checked, hs, hr, rfl⟩⟩
    rw [hq]
    exact congrArg _ (hx.complete hs).2
  · intro t ht
    obtain ⟨s, checked, hs, hr, rfl⟩ := (htype t).mp ht
    refine ⟨⟨rfl, (hx.complete hs).1⟩, checked, ?_, rfl⟩
    rw [hq, ← hr]
    exact congrArg _ (hx.complete hs).2

/-- An operation on two operands. The type of the first has to outlast the second. -/
theorem Judges.binary {o : Outline} {site : Site} {id : NodeId} {op : BinaryOp} {token : Token}
    {lhs rhs : Expr} (hl : o.Judges site lhs) (hr : (o.run lhs.events).Judges site rhs)
    (hstays : ((o.run lhs.events).run rhs.events).typeOf lhs = (o.run lhs.events).typeOf lhs) :
    o.Judges site (.binary id op token lhs rhs) := by
  have hquestion : ∀ {l r : Ty}, HasType site lhs l → HasType site rhs r →
      (o.run (lhs.events ++ rhs.events)).question
        (.exitBinary (.binary id op token lhs rhs) op token lhs rhs)
        = some (token.position, Rules.binary op l r) := by
    intro l r htl htr
    simp [Outline.question, hstays, (hl.complete htl).2, (hr.complete htr).2]
  refine Judges.rule (.enterExpr (.binary id op token lhs rhs) :: (lhs.events ++ rhs.events))
    token.position rfl rfl rfl rfl ?_ ?_
  · intro hc
    obtain ⟨hcl, hcr⟩ := (clean_append ..).mp hc.2
    obtain ⟨l, htl⟩ := hl.sound hcl
    obtain ⟨r, htr⟩ := hr.sound hcr
    exact ⟨_, hquestion htl htr, fun checked => .binary htl htr⟩
  · intro t ht
    cases ht with
    | binary htl htr hrule =>
      refine ⟨?_, _, hrule ▸ hquestion htl htr, rfl⟩
      exact ⟨rfl, (clean_append ..).mpr ⟨(hl.complete htl).1, (hr.complete htr).1⟩⟩

end Outline

open Outline

mutual

/-- **The check and the rules agree about expressions.** -/
theorem Expr.judges : ∀ (e : Expr) {o : Outline} {site : Site}, o.StandsAt site e.events →
    o.Judges site e
  -- by recursion over the expression; `StandsAt` carries what the walk has made ready for it
  | .literal id token given, o, site, h => by
    have htyped := h.typed (.exitLiteral (.literal id token given) token) (by simp [Expr.events])
    refine ⟨fun _ => ?_, fun ht => ?_⟩
    · cases hg : given.or (site.literals.get id) with
      | some type => exact ⟨type, .literal hg⟩
      | none => simp [Event.untyped?, hg] at htyped
    · cases ht with
      | literal hg => exact ⟨⟨rfl, rfl, rfl, trivial⟩, by simpa [Outline.typeOf, h.shows.literals] using hg⟩
  | .var id node name, _, _, h => Judges.variable h.shows
  | .call id node callee args, o, site, h => by
    have hstands : (o.refer node callee .callee).StandsAt site (Expr.eventsOfList args) :=
      (StandsAt.left (StandsAt.skip (StandsAt.skip h))).refer h.ready.arguments
    refine Judges.call h.shows ?_ (Expr.judgesList args hstands)
    intro hm
    exact ((StandsAt.skip h).ready.head rfl).2 (by simp [Expr.nameNode, hm])
  | .binary id op token lhs rhs, o, site, h => by
    have hboth : o.StandsAt site (lhs.events ++ rhs.events) := StandsAt.left (StandsAt.skip h)
    obtain ⟨hreads, hset⟩ := lhs.reads hboth.ready.left h.rest.header
    -- the left operand binds nothing, so the right one is judged at the same site
    have hnext := hboth.past lhs.grounded hreads
    refine Judges.binary (lhs.judges hboth.left) (rhs.judges hnext) ?_
    exact hset.typeOf_run (rhs.reads hnext.ready hnext.rest.header).1.orderly
  | .unary id op token operand, o, site, h => by
    refine Judges.operation token.position (Rules.unary op) rfl rfl (fun _ => rfl) (fun _ => rfl)
      (fun o => by cases ht : o.typeOf operand <;> simp [Outline.question, ht]) ?_
      (operand.judges (StandsAt.left (StandsAt.skip h)))
    intro t
    constructor
    · intro ht
      cases ht with
      | unary hs hrule => exact ⟨_, _, hs, hrule, rfl⟩
    · rintro ⟨s, checked, hs, hrule, rfl⟩
      exact .unary hs hrule
  | .cast id target operand, o, site, h => by
    refine Judges.operation target.position (Rules.cast target.named) rfl rfl (fun _ => rfl)
      (fun _ => rfl) (fun o => by cases ht : o.typeOf operand <;> simp [Outline.question, ht]) ?_
      (operand.judges (StandsAt.left (StandsAt.skip h)))
    intro t
    constructor
    · intro ht
      cases ht with
      | cast hs hrule => exact ⟨_, _, hs, hrule, rfl⟩
    · rintro ⟨s, checked, hs, hrule, rfl⟩
      exact .cast hs hrule
  | .grouped id inner, o, site, h => by
    have hx := inner.judges (StandsAt.left (StandsAt.skip h))
    refine Judges.last (.enterExpr _ :: inner.events) rfl rfl rfl ?_ ?_
    · intro hc _
      obtain ⟨t, ht⟩ := hx.sound hc.2
      exact ⟨t, .grouped ht⟩
    · intro t ht
      cases ht with
      | grouped ht =>
        obtain ⟨hc, htype⟩ := hx.complete ht
        exact ⟨⟨rfl, hc⟩, rfl, htype⟩
  | .format id token args, o, site, h => by
    have hargs := Expr.judgesList args (StandsAt.left (StandsAt.skip h))
    refine Judges.last (.enterExpr _ :: Expr.eventsOfList args) rfl rfl rfl ?_ ?_
    · intro hc _
      obtain ⟨types, ht⟩ := hargs.sound hc.2
      exact ⟨_, .format ht⟩
    · intro t ht
      cases ht with
      | format ht => exact ⟨⟨rfl, (hargs.complete ht).1⟩, rfl, rfl⟩

theorem Expr.judgesList : ∀ (es : List Expr) {o : Outline} {site : Site},
    o.StandsAt site (Expr.eventsOfList es) → o.JudgesAll site es
  | [], o, site, h => by
    refine ⟨fun _ => ⟨[], .nil⟩, fun ht => ?_⟩
    cases ht
    exact ⟨trivial, rfl⟩
  | e :: rest, o, site, h => by
    have he := e.judges (StandsAt.left h)
    obtain ⟨hreads, hset⟩ := e.reads (Ready.left h.ready) h.rest.header
    have hnext := StandsAt.past h e.grounded hreads
    have hrest := Expr.judgesList rest hnext
    have hstays := hset.typeOf_run (Expr.readsList rest hnext.ready hnext.rest.header).1.orderly
    refine ⟨fun hc => ?_, fun ht => ?_⟩
    · obtain ⟨hce, hcr⟩ := (clean_append ..).mp hc
      obtain ⟨type, ht⟩ := he.sound hce
      obtain ⟨types, hts⟩ := hrest.sound hcr
      exact ⟨_, .cons ht hts⟩
    · cases ht with
      | cons ht hts =>
        obtain ⟨hce, htype⟩ := he.complete ht
        obtain ⟨hcr, htypes⟩ := hrest.complete hts
        refine ⟨(clean_append ..).mpr ⟨hce, hcr⟩, ?_⟩
        rw [Expr.eventsOfList, run_append, List.map_cons, List.map_cons, hstays, htype, htypes]

end

theorem Expr.judgesOption (e : Option Expr) {o : Outline} {site : Site}
    (h : o.StandsAt site (Expr.eventsOfOption e)) :
    o.Clean (Expr.eventsOfOption e) ↔ Typed site e := by
  cases e with
  | none => simp [Expr.eventsOfOption, Outline.Clean, Typed]
  | some e =>
    have he := e.judges h
    simp only [Typed, Option.some.injEq, forall_eq']
    constructor
    · exact he.sound
    · rintro ⟨t, ht⟩
      exact (he.complete ht).1

/-! ## Statements -/

/-- What is stored has a type that fits. -/
theorem Outline.Judges.stores {o : Outline} {site : Site} {e : Expr} (h : o.Judges site e)
    (exit : Event) (position : Position) (target : Ty)
    (hm : (o.run e.events).remarks exit = [])
    (hq : ∀ t, (o.run e.events).typeOf e = some t →
      (o.run e.events).question exit = some (position, Rules.assignment target t)) :
    o.Clean (e.events ++ [exit]) ↔ ∃ t, HasType site e t ∧ Fits target t := by
  have hexit : ∀ t, HasType site e t →
      (((o.run e.events).reports exit).errorCount = 0 ↔ Fits target t) := by
    intro t ht
    have hreports : (o.run e.events).reports exit = ruling position (Rules.assignment target t) := by
      simp [Outline.reports, hm, hq t (h.complete ht).2]
    rw [hreports]
    exact clean_ruling _ _
  rw [clean_append]
  constructor
  · rintro ⟨hc, hlast, -⟩
    obtain ⟨t, ht⟩ := h.sound hc
    exact ⟨t, ht, (hexit t ht).mp hlast⟩
  · rintro ⟨t, ht, hfits⟩
    exact ⟨(h.complete ht).1, (hexit t ht).mpr hfits, trivial⟩

theorem Outline.Shows.declares {o : Outline} {site : Site} (h : o.Shows site) (d : Definition) :
    (o.duplicate d).errorCount = 0 ↔ site.Free d.name := by
  rw [clean_duplicate, h.free]

/-- Data and parameters are declared without error under free names and if they hold something. -/
theorem Outline.Shows.declaresData {o : Outline} {site : Site} (h : o.Shows site) (d : Decl) :
    (Diagnostics.errorCount (valueless (.data d) ++ o.duplicate (.data d)) = 0) ↔
      site.Free d.name.name ∧ d.type.named ≠ .nothing := by
  rw [Diagnostics.errorCount_append, Nat.add_eq_zero_iff, clean_valueless, h.declares]
  exact and_comm

theorem DataDef.judges (d : DataDef) {o : Outline} {site : Site} (h : o.StandsAt site d.events) :
    o.Clean d.events ↔ d.WellFormed site := by
  have hrest : o.StandsAt site ([.enterDecl d.decl] ++ (Expr.eventsOfOption d.init ++ [.exitData d])) :=
    StandsAt.skip h
  have hreports : (o.reports (.enterDecl d.decl)).errorCount = 0 ↔
      site.Free d.decl.name.name ∧ d.decl.type.named ≠ .nothing := by
    have heq : o.reports (.enterDecl d.decl)
        = valueless (.data d.decl) ++ o.duplicate (.data d.decl) := by
      simp [Outline.reports, Outline.remarks, Outline.question]
    rw [heq]
    exact h.shows.declaresData d.decl
  -- the initial value is judged where the name is declared already, which needs the name to be free
  have hinit : site.Free d.decl.name.name → d.decl.type.named ≠ .nothing →
      ((o.declare (.data d.decl)).Clean (Expr.eventsOfOption d.init ++ [.exitData d]) ↔
        ∀ init, d.init = some init →
          ∃ type, HasType (site.declaring [.data d.decl]) init type ∧
            Fits d.decl.type.named type) := by
    intro hfree htype
    have hnext : (o.declare (.data d.decl)).StandsAt (site.declaring [.data d.decl])
        (Expr.eventsOfOption d.init ++ [.exitData d]) :=
      hrest.next (grounded_enter rfl rfl) hrest.ready.decl
        (h.shows.distinct.declare (d := .data d.decl) hfree)
    cases hd : d.init with
    | none => simp [Expr.eventsOfOption, Outline.Clean, Outline.reports, Outline.remarks,
        Outline.question, hd, Diagnostics.errorCount, Diagnostics.ofSeverity]
    | some init =>
      rw [hd] at hnext
      have hvalue := (init.judges hnext.left).stores (.exitData d) d.decl.name.position
        d.decl.type.named rfl (by intro t ht; simp [Outline.question, hd, ht, htype])
      simpa [Expr.eventsOfOption] using hvalue
  constructor
  · rintro ⟨-, hdecl, hrest⟩
    obtain ⟨hfree, htype⟩ := hreports.mp hdecl
    exact ⟨hfree, htype, (hinit hfree htype).mp hrest⟩
  · rintro ⟨hfree, htype, hvalue⟩
    exact ⟨rfl, hreports.mpr ⟨hfree, htype⟩, (hinit hfree htype).mpr hvalue⟩

theorem not_fits_nothing (value : Ty) : ¬ Fits .nothing value := by
  rintro ⟨checked, h⟩
  cases value <;> cases h

theorem Assignment.judges (a : Assignment) {o : Outline} {site : Site}
    (h : o.StandsAt site (Stmt.assign a).events) :
    o.Clean (Stmt.assign a).events ↔ (Stmt.assign a).WellFormed site := by
  have hvalue : (o.refer a.id a.target .target).StandsAt site a.value.events :=
    (StandsAt.left (StandsAt.skip h)).refer (h.ready.parts rfl rfl h.ready.inside)
  have hnew : a.id ∉ entered a.value.events := fun hm => (h.ready.head rfl).2 (by simp [hm])
  -- the value is checked between finding the target and storing into it, and leaves the slot of the
  -- target alone
  have hkept := (o.refer a.id a.target .target).agreesAt_of_not_mem a.value.grounded hnew
  have hstores : ∀ {place d}, resolution o.scope a.target .target = .ok ⟨place, .data d⟩ →
      ((o.refer a.id a.target .target).Clean (a.value.events ++ [.exitAssign a]) ↔
        ∃ t, HasType site a.value t ∧ Fits d.type.named t) := by
    intro place d hr
    refine (a.value.judges hvalue).stores (.exitAssign a) a.target.position d.type.named rfl ?_
    intro t ht
    have hsymbol : ((o.refer a.id a.target .target).run a.value.events).symbolOf a.id
        = some ⟨place, .data d⟩ := by
      rw [Outline.symbolOf, hkept.symbols]
      simp [Outline.refer, Cells.get_put, hr, Except.toOption]
    simp [Outline.question, hsymbol, ht, Definition.type, Definition.typeName]
  constructor
  · rintro ⟨hname, hrest⟩
    obtain ⟨⟨place, d⟩, hr⟩ := (clean_use rfl rfl).mp hname
    obtain ⟨hmem, hname, hcls⟩ := h.shows.of_resolution hr
    cases d with
    | function f => cases hcls
    | data d =>
      obtain ⟨t, ht, hfits⟩ := (hstores hr).mp hrest
      exact ⟨d, t, hmem, hname, ht, hfits⟩
  · rintro ⟨d, t, hmem, hname, ht, hfits⟩
    obtain ⟨⟨place, d'⟩, hr, rfl⟩ := h.shows.resolution .target hmem hname rfl
    exact ⟨(clean_use rfl rfl).mpr ⟨_, hr⟩, (hstores hr).mpr ⟨t, ht, hfits⟩⟩

/-- A `return` is checked against the function around it, if there is one. -/
theorem Stmt.judgesReturn (keyword : Token) (value : Option Expr) {o : Outline} {site : Site}
    (h : o.StandsAt site (Stmt.ret keyword value).events) :
    o.Clean (Stmt.ret keyword value).events ↔ Returns site value := by
  have hvalue : o.StandsAt site (Expr.eventsOfOption value) := StandsAt.left h
  have hreads := (Expr.readsOption value hvalue.ready h.rest.header).1
  have hfunction := hreads.passes.function
  have hreturns := h.shows.returns
  -- outside of functions a value only has to have a type
  cases hf : o.function with
  | none =>
    rw [hf] at hfunction hreturns
    have hquiet : (o.run (Expr.eventsOfOption value)).reports (.exitReturn keyword value) = [] := by
      simp [Outline.reports, Outline.remarks, Outline.misreturn, Outline.question, hfunction]
    rw [Stmt.events, clean_append, Expr.judgesOption value hvalue]
    simp only [Returns, ← hreturns, Option.map_none]
    exact ⟨fun hc => hc.1, fun hc => ⟨hc, clean_quiet hquiet, trivial⟩⟩
  | some f =>
    rw [hf] at hfunction hreturns
    simp only [Returns, ← hreturns, Option.map_some]
    cases value with
    | none =>
      by_cases hn : f.returns.named = .nothing <;>
        simp [Stmt.events, Expr.eventsOfOption, Outline.Clean, Outline.reports, Outline.remarks,
          Outline.misreturn, Outline.question, hf, hn, Diagnostics.errorCount,
          Diagnostics.ofSeverity]
    | some e =>
      by_cases hn : f.returns.named = .nothing
      · have hremark : ((o.run e.events).reports (.exitReturn keyword (some e))).errorCount ≠ 0 := by
          have hfun : (o.run e.events).function = some f := hfunction
          simp [Outline.reports, Outline.remarks, Outline.misreturn, hfun, hn,
            Diagnostics.errorCount, Diagnostics.ofSeverity]
        rw [hn]
        constructor
        · intro hc
          exact absurd ((clean_append ..).mp hc).2.1 hremark
        · rintro ⟨t, -, hfits⟩
          exact absurd hfits (not_fits_nothing t)
      · have hfun : (o.run e.events).function = some f := hfunction
        refine (e.judges hvalue).stores (.exitReturn keyword (some e)) keyword.position
          f.returns.named ?_ ?_
        · simp [Outline.remarks, Outline.misreturn, hfun, hn]
        · intro t ht
          simp [Outline.question, hfun, ht, hn]

theorem Outline.StandsAt.opened {o : Outline} {site : Site} {events : List Event} {node : NodeId}
    (h : o.StandsAt site events) (hr : (o.opened node).Ready events) :
    (o.opened node).StandsAt site events :=
  ⟨hr, ⟨h.rest.header, h.rest.returns⟩,
    ⟨h.shows.literals, by simpa [Outline.scope, Outline.opened, visible] using h.shows.visible,
      h.shows.returns, h.shows.distinct⟩, h.typed⟩

mutual

theorem Stmt.judges : ∀ (s : Stmt) {o : Outline} {site : Site}, o.StandsAt site s.events →
    (o.Clean s.events ↔ s.WellFormed site)
  | .data d, _, _, h => by
    rw [Stmt.WellFormed]
    exact d.judges h
  | .assign a, _, _, h => a.judges h
  | .expr value, _, _, h => by
    have hv := value.judges h
    rw [Stmt.WellFormed]
    exact ⟨hv.sound, fun ⟨_, ht⟩ => (hv.complete ht).1⟩
  | .branch conditional, _, _, h => by
    rw [Stmt.WellFormed]
    exact conditional.judges h
  -- the two loops differ in the order of condition and body only, and neither part declares
  -- anything for the other
  | .whileLoop keyword cond body, o, site, h => by
    have hboth : o.StandsAt site (Expr.eventsOfOption cond ++ body.events) :=
      StandsAt.left (StandsAt.skip h)
    have hc := Expr.judgesOption cond hboth.left
    have hreads := (Expr.readsOption cond hboth.ready.left h.rest.header).1
    have hb := body.judges (hboth.past (Expr.groundedOption cond) hreads)
    rw [Stmt.WellFormed, ← hc, ← hb, ← clean_append, Stmt.events]
    exact clean_around rfl rfl
  | .doLoop keyword body cond, o, site, h => by
    have hboth : o.StandsAt site (body.events ++ Expr.eventsOfOption cond) :=
      StandsAt.left (StandsAt.skip h)
    have hb := body.judges hboth.left
    have hreads := body.reads hboth.ready.left h.rest
    have hc := Expr.judgesOption cond (hboth.past body.grounded hreads)
    rw [Stmt.WellFormed, ← hc, ← hb, ← clean_append, Stmt.events]
    exact clean_around rfl rfl
  | .ret keyword value, _, _, h => by
    rw [Stmt.WellFormed]
    exact Stmt.judgesReturn keyword value h
  | .yield keyword value, o, site, h => by
    have hv := Expr.judgesOption value (StandsAt.left h)
    rw [Stmt.WellFormed, ← hv, Stmt.events, clean_append]
    exact ⟨fun hc => hc.1, fun hc => ⟨hc, rfl, trivial⟩⟩
  | .brk _, _, _, _ => by
    rw [Stmt.WellFormed]
    exact ⟨fun _ => trivial, fun _ => ⟨rfl, trivial⟩⟩
  | .cont _, _, _, _ => by
    rw [Stmt.WellFormed]
    exact ⟨fun _ => trivial, fun _ => ⟨rfl, trivial⟩⟩
  | .inline _ _, _, _, _ => by
    rw [Stmt.WellFormed]
    exact ⟨fun _ => trivial, fun _ => ⟨rfl, trivial⟩⟩
  | .block body, _, _, h => by
    rw [Stmt.WellFormed]
    exact body.judges h

theorem Block.judges : ∀ (b : Block) {o : Outline} {site : Site}, o.StandsAt site b.events →
    (o.Clean b.events ↔ b.WellFormed site)
  | .mk id brace body, o, site, h => by
    have hready := h.ready.parts rfl rfl (by simp [Outline.step, Outline.opened])
    have hb := Stmt.judgesList body ((StandsAt.left (StandsAt.skip h)).opened hready)
    rw [Block.WellFormed, ← hb, Block.events]
    exact clean_around rfl rfl

theorem Stmt.judgesList : ∀ (body : List Stmt) {o : Outline} {site : Site},
    o.StandsAt site (Stmt.eventsOfList body) →
    (o.Clean (Stmt.eventsOfList body) ↔ Stmt.AllWellFormed body site)
  | [], _, _, _ => by simp [Stmt.eventsOfList, Stmt.AllWellFormed, Outline.Clean]
  | s :: rest, o, site, h => by
    have hs := s.judges (StandsAt.left h)
    have hreads := s.reads (Ready.left h.ready) h.rest
    rw [Stmt.AllWellFormed, Stmt.eventsOfList, clean_append, hs]
    refine and_congr_right fun hwell => ?_
    exact Stmt.judgesList rest (StandsAt.next h s.grounded hreads (h.shows.distinct.stmt hwell))

theorem Conditional.judges : ∀ (c : Conditional) {o : Outline} {site : Site},
    o.StandsAt site c.events → (o.Clean c.events ↔ c.WellFormed site)
  | .mk keyword cond body otherwise, o, site, h => by
    have hall : o.StandsAt site (cond.events ++ body.events ++ otherwise.events) :=
      StandsAt.left (StandsAt.skip h)
    have hc := cond.judges hall.left.left
    have hrc := (cond.reads hall.left.left.ready h.rest.header).1
    have hbody := hall.left.past cond.grounded hrc
    have hb := body.judges hbody
    have hrb := hrc.append (body.reads hbody.ready hbody.rest)
    have he := otherwise.judges (hall.past (cond.grounded.append body.grounded) hrb)
    have hcond : o.Clean cond.events ↔ ∃ type, HasType site cond type :=
      ⟨hc.sound, fun ⟨_, ht⟩ => (hc.complete ht).1⟩
    rw [Conditional.WellFormed, ← hcond, ← hb, ← he, ← and_assoc, ← clean_append, ← clean_append,
      Conditional.events]
    exact clean_around rfl rfl

theorem Else.judges : ∀ (e : Else) {o : Outline} {site : Site}, o.StandsAt site e.events →
    (o.Clean e.events ↔ e.WellFormed site)
  | .none, _, _, _ => by simp [Else.events, Else.WellFormed, Outline.Clean]
  | .elseIf next, _, _, h => by
    rw [Else.WellFormed]
    exact next.judges h
  | .block body, _, _, h => by
    rw [Else.WellFormed]
    exact body.judges h

end

/-! ## Functions and programs -/

theorem Function.judgesParams (f : Function) (params : List Decl) {o : Outline} {site : Site}
    (hf : o.frames ≠ []) (h : o.Shows site) :
    o.Clean (params.map (Event.enterParam f)) ↔ Decl.AllWellFormed params site := by
  induction params generalizing o site with
  | nil => simp [Outline.Clean, Decl.AllWellFormed]
  | cons d rest ih =>
    have heq : o.reports (.enterParam f d) = valueless (.data d) ++ o.duplicate (.data d) := by
      simp [Outline.reports, Outline.remarks, Outline.question]
    rw [List.map_cons, Outline.Clean, Decl.AllWellFormed, heq, h.declaresData, and_assoc]
    refine and_congr_right fun hfree => and_congr_right fun _ => ?_
    have hgrows : o.Grows (o.step (.enterParam f d)) [.data d] := grows_declare (.data d) hf
    exact ih hgrows.inside (h.grows hgrows (declare_frame o (.data d)).2.2.2 (by simp)
      (h.distinct.declare (d := .data d) hfree))

/-- Inside a function its own name can be seen too. -/
theorem Outline.Shows.inside {o : Outline} {site : Site} (h : o.Shows site) {f : Function}
    (hf : o.frames ≠ []) (hfree : site.Free f.name.name) :
    (o.step (.enterFunction f)).Shows (site.inside f) where
  literals := by rw [literals_step]; exact h.literals
  visible := by
    have hscope := (grows_declare (.function f) hf).scope
    rw [h.visible] at hscope
    simpa [Outline.step, Outline.scope, Outline.opened, Semant.visible, Site.inside, Site.declaring]
      using hscope
  returns := rfl
  distinct := h.distinct.declare (d := .function f) hfree

theorem Function.judges (f : Function) {o : Outline} {site : Site} (h : o.StandsAt site f.events) :
    o.Clean f.events ↔ f.WellFormed site := by
  obtain ⟨-, hg, hready, hrest, hfunction⟩ := f.readsHeader h.ready h.rest.header
  have hentry : (o.step (.enterFunction f)).frames ≠ [] := by simp [Outline.step, Outline.opened]
  have hname : (o.reports (.enterFunction f)).errorCount = 0 ↔ site.Free f.name.name := by
    have heq : o.reports (.enterFunction f) = o.duplicate (.function f) := by
      simp [Outline.reports, Outline.remarks, Outline.question]
    rw [heq]
    exact h.shows.declares (.function f)
  rw [Function.events_eq, clean_append, Function.header, Outline.Clean, clean_append, hname,
    Function.WellFormed, and_assoc]
  refine and_congr_right fun hfree => ?_
  have hshows := h.shows.inside h.ready.inside hfree
  rw [f.judgesParams f.params hentry hshows, and_assoc]
  refine and_congr_right fun hparams => ?_
  have hbody : (o.run f.header).StandsAt ((site.inside f).declaring (f.params.map .data))
      f.body.events :=
    ⟨hready.left, hrest, hshows.grows hg hfunction (by simp) (hshows.distinct.params hparams),
      fun event hm => h.typed event (by rw [Function.events_eq]; simp [hm])⟩
  rw [← f.body.judges hbody, clean_append]
  exact ⟨fun hc => hc.2.1, fun hc => ⟨⟨rfl, trivial⟩, hc, rfl, trivial⟩⟩

theorem Item.judges (item : Item) {o : Outline} {site : Site} (h : o.StandsAt site item.events)
    (hout : o.function = none) : o.Clean item.events ↔ item.WellFormed site := by
  cases item with
  | imports i => exact ⟨fun _ => trivial, fun _ => ⟨rfl, trivial⟩⟩
  | data d => exact d.judges h
  | function f => exact f.judges h
  | start s =>
    have hsame : o.step (.enterStart s) = o := by
      cases o
      cases hout
      rfl
    have hb := s.body.judges (StandsAt.left (StandsAt.skip h))
    rw [Item.WellFormed, ← hb, Item.events]
    nth_rewrite 2 [← hsame]
    exact clean_around rfl rfl

theorem Item.judgesList (items : List Item) {o : Outline} {site : Site}
    (h : o.StandsAt site (items.flatMap Item.events)) (hout : o.function = none) :
    o.Clean (items.flatMap Item.events) ↔ Item.AllWellFormed items site := by
  induction items generalizing o site with
  | nil => simp [Outline.Clean, Item.AllWellFormed]
  | cons item rest ih =>
    rw [List.flatMap_cons] at h ⊢
    have hreads := item.reads h.ready.left h.rest hout
    rw [clean_append, item.judges h.left hout, Item.AllWellFormed]
    refine and_congr_right fun hwell => ?_
    exact ih (h.next item.grounded hreads (h.shows.distinct.item hwell))
      (hreads.passes.function.trans hout)

/-- The check of a whole program has no error if and only if the rules hold. -/
theorem Program.judges {p : Program} {literals : Cells Ty} (hn : p.nodes.Nodup)
    (ht : ∀ token ∈ p.typeNames, token.type?.isSome) (hl : p.untyped? literals = none) :
    (Outline.start literals).Clean p.events ↔ p.WellFormed literals := by
  have hstands : ((Outline.start literals).opened p.id).StandsAt
      { literals, visible := [], returns := none } (p.items.flatMap Item.events) := by
    refine ⟨p.ready literals hn ht, ⟨rfl, by simp [Outline.start, Outline.opened]⟩,
      ⟨rfl, rfl, rfl, by simp [Site.Distinct]⟩, fun event hm => ?_⟩
    exact List.findSome?_eq_none_iff.mp hl event (by simp [Program.events, hm])
  rw [Program.WellFormed, ← Item.judgesList p.items hstands rfl]
  exact clean_around rfl rfl

/-- **Readiness.** A program in which no node occurs twice, every literal has a type and every type
is named can be analysed, and there is no error if and only if the program is well formed. Programs
of documents are all of this kind. -/
theorem analyze_ready_iff_wellFormed (store : Store) (p : Program) (hn : p.nodes.Nodup)
    (hl : ∀ e token, .exitLiteral e token ∈ p.events → (store.notes.typeOf e).isSome)
    (ht : ∀ token ∈ p.typeNames, token.type?.isSome) :
    (∃ a after, store.analyze p = (.ok a, after) ∧
        (a.isReady = true ↔ p.WellFormed store.notes.literals)) ∧
      ∀ text next q after, Program.load text next = .ok (q, after) →
        q.nodes.Nodup ∧ (∀ token ∈ q.typeNames, token.type?.isSome) ∧
          ∀ (notes : Annotations) e token, .exitLiteral e token ∈ q.events →
            (notes.typeOf e).isSome := by
  constructor
  · rw [← Program.untyped?_eq_none_iff hn ht] at hl
    obtain ⟨s, -, hds, hok⟩ := Store.analyze_ok hn ht hl
    refine ⟨_, _, hok, ?_⟩
    rw [← Program.judges hn ht hl, clean_iff_journal, ← hds, Analysis.isReady,
      (Store.analyze_tallied hok).1]
    exact decide_eq_true_iff
  · intro text next q after hload
    obtain ⟨hnodes, hnames, hliterals⟩ := Program.load_ok hload
    refine ⟨hnodes, hnames, fun notes => ?_⟩
    exact (Program.untyped?_eq_none_iff hnodes hnames notes).mp (hliterals notes.literals)

/-- A function that doubles a number, and data of the name of its parameter. -/
def doubling : Program :=
  let at' (line column : UInt32) : Position := ⟨"double.dk", line, column⟩
  { id := 0
    file := "double.dk"
    items :=
      [.function
        { id := 1
          isIterator := false
          returns := ⟨.integerType, "int", at' 1 4⟩
          name := ⟨"double", at' 1 8⟩
          params := [⟨2, false, ⟨.integerType, "int", at' 1 15⟩, ⟨"n", at' 1 19⟩⟩]
          body := .mk 3 ⟨.leftBrace, "\x7b", at' 1 22⟩
            [.ret ⟨.returnWord, "return", at' 2 3⟩
              (some (.binary 4 .add ⟨.plus, "+", at' 2 12⟩ (.var 5 105 ⟨"n", at' 2 10⟩)
                (.var 6 106 ⟨"n", at' 2 14⟩)))] },
      .start
        { keyword := ⟨.startWord, "start", at' 4 1⟩
          body := .mk 7 ⟨.leftBrace, "\x7b", at' 4 7⟩
            [.data
              { decl := ⟨8, false, ⟨.floatType, "float", at' 5 3⟩, ⟨"n", at' 5 9⟩⟩
                init := some (.call 9 109 ⟨"double", at' 5 13⟩
                  [.literal 10 ⟨.integerLiteral, "1", at' 5 20⟩ (some .int)]) }] }] }

/-- The parameter is gone where the data is declared, so the program is ready. -/
theorem doubling_ready : doubling.nodes.Nodup ∧
    (∀ e token, .exitLiteral e token ∈ doubling.events →
      (({} : Store).notes.typeOf e).isSome) ∧
    (∀ token ∈ doubling.typeNames, token.type?.isSome) ∧
    ∃ a after, ({} : Store).analyze doubling = (.ok a, after) ∧ a.isReady = true := by
  have hn : doubling.nodes.Nodup := by decide
  have ht : ∀ token ∈ doubling.typeNames, token.type?.isSome := by decide
  have hl : ∀ e token, .exitLiteral e token ∈ doubling.events →
      (({} : Store).notes.typeOf e).isSome :=
    (Program.untyped?_eq_none_iff hn ht _).mp rfl
  have hwell : doubling.WellFormed ({} : Store).notes.literals := by
    refine ⟨⟨by decide, ⟨by decide, by decide, trivial⟩, ?_, trivial⟩, ?_, trivial⟩
    · exact ⟨_, .binary (.var (.tail _ (.head _)) rfl) (.var (.tail _ (.head _)) rfl) rfl, _, rfl⟩
    · refine ⟨⟨by decide, by decide, ?_⟩, trivial⟩
      rintro init ⟨⟩
      exact ⟨_, .call (.head _) rfl (.cons (.literal rfl) .nil), _, rfl⟩
  obtain ⟨⟨a, after, hok, hready⟩, -⟩ := analyze_ready_iff_wellFormed {} doubling hn hl ht
  exact ⟨hn, hl, ht, a, after, hok, hready.mpr hwell⟩

end Semant
