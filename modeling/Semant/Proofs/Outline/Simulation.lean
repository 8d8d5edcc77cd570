import Semant.Proofs.Outline.Describes

/-!
# The check follows the outline

One step of the check and one step of the outline, side by side: `Describes.visit_run` says that the
check takes every event that comes where it is expected, ends in a state that the outline after the
event describes, and has reported what the outline says about the event.

Each function of the check gets its lemma here, always in this form: it returns, `Describes` holds
again, and the diagnostics have grown by a part of `Outline.reports`. What the functions do to the
tables was said in `Semant.Proofs.Steps`, and what `Describes` makes of it in
`Semant.Proofs.Outline.Describes`; the lemmas only bring the two together.
-/

set_option autoImplicit false

namespace Semant

namespace Outline

variable {o : Outline} {s : Pass}

theorem typeNamed_run (token : Token) (h : token.type?.isSome) (s : Pass) :
    (ofExcept (typeNamed token) : PassM Ty).run s = .ok token.named s := by
  obtain ⟨type, ht⟩ := Option.isSome_iff_exists.mp h
  simp only [typeNamed, Token.named, ht]
  rfl

theorem Describes.typeOf_run (h : o.Describes s) (e : Expr) :
    (Pass.typeOf e).run s = .ok (o.typeOf e) s := by
  simp only [Pass.typeOf, EStateM.run_bind, EStateM.run_get, EStateM.run_pure, h.typeOf]

theorem Describes.symbolOf_run (h : o.Describes s) (node : NodeId) :
    (Pass.symbolOf node).run s = .ok ((o.symbolOf node).map Entry.place) s := by
  simp only [Pass.symbolOf, EStateM.run_bind, EStateM.run_get, EStateM.run_pure, h.slots]

/-- The symbol of a declaration is bound and recorded, or its name is reported as taken. -/
theorem Describes.bindAt_run (h : o.Describes s) (hv : o.Scoped) {d : Definition} {symbol : Symbol}
    (hd : o.CanDeclare d) (hdef : symbol.definition = d) (hsig : symbol.signature = none)
    (subject : Subject) {s₁ : Pass} (h₁ : (o.write d none).Describes s₁)
    (hstore : s₁.store = s.store.addSymbol symbol) (hstack : s₁.stack = s.stack) :
    ∃ r s₂, (Pass.bindAt d.id s.store.symbols.size subject).run s₁ = .ok r s₂ ∧
      (o.declare d).Describes s₂ ∧ s₂.diagnostics = s₁.diagnostics ++ o.duplicate d := by
  obtain ⟨k, hk, -⟩ := h.active_isSome hv hd.1
  have hk₁ : s₁.stack.active = some k := by rw [hstack, hk]
  have hsym : s₁.store.symbol s.store.symbols.size = symbol := by
    rw [hstore, Store.symbol_addSymbol, if_pos rfl]
  -- the new symbol is not bound yet, so the lookup is still that of the state before
  have hfind : s₁.store.find? k (s₁.store.symbol s.store.symbols.size).name
      = (lookup o.scope d.name).map Entry.place := by
    rw [hsym, Symbol.name_eq, hdef, hstore, Store.find?_addSymbol]
    exact h.find?_eq hv hk d.name
  cases hl : lookup o.scope d.name with
  | none =>
    rw [hl] at hfind
    have hnew : s₁.store.notes.symbols.get d.id = none := by
      rw [hstore]
      refine (h.slots d.id).trans ?_
      rw [symbolOf, hd.2.1]
      rfl
    obtain ⟨log, hrun⟩ := Pass.bindAt_run_free subject hk₁ hfind hnew
    refine ⟨_, _, hrun, ?_, ?_⟩
    · have hcount : s.store.symbols.size = o.declared.length := h.count
      have hb := h₁.bind hv hd hl (by rw [← hcount, hsym]; exact hsig) hk₁
      rw [Outline.declare, hl, hcount]
      exact hb.logged log
    · simp [duplicate, hl, Pass.storing, Pass.logged]
  | some old =>
    rw [hl] at hfind
    obtain ⟨log, hrun⟩ := Pass.bindAt_run_taken d.id subject hk₁ hfind
    refine ⟨_, _, hrun, ?_, ?_⟩
    · rw [Outline.declare, hl]
      exact (h₁.reporting _).logged log
    · -- the older symbol lies below the new one, where `addSymbol` changed nothing
      have hold : (s₁.store.symbol old.place).definition = old.definition := by
        obtain ⟨node, hm⟩ := hv.visible_declared (lookup_mem hl)
        rw [hstore, Store.symbol_addSymbol, if_neg (Nat.ne_of_lt (h.lt_count hm))]
        exact (h.symbol hm).1
      simp [duplicate, hl, Pass.reporting, Pass.logged, hsym, Symbol.name_eq, Symbol.position_eq,
        Symbol.cls_eq, hdef, hold]

theorem Describes.declare_run (h : o.Describes s) (hv : o.Scoped) {decl : Decl} (symbol : Symbol)
    (hd : o.CanDeclare (.data decl)) (hdef : symbol.definition = .data decl)
    (hty : symbol.type = decl.type.named) (hsig : symbol.signature = none) :
    ∃ r s', (Pass.declare decl symbol).run s = .ok r s' ∧
      (o.declare (.data decl)).Describes s' ∧
      s'.diagnostics = s.diagnostics ++ (valueless (.data decl) ++ o.duplicate (.data decl)) := by
  have h₁ := h.write hv hd hdef hty
  have hmake : (Pass.makeSymbol symbol).run s
      = .ok s.store.symbols.size (s.storing (s.store.addSymbol symbol)) := rfl
  simp only [Pass.declare_eq, EStateM.run_bind, hmake]
  by_cases hn : symbol.type = .nothing
  · obtain ⟨log, hrep⟩ := Pass.report_run (s.storing (s.store.addSymbol symbol)) .error
      symbol.position (.semantic (.nothingData symbol.name))
    obtain ⟨r, s', hrun, hs', hds⟩ := h.bindAt_run hv hd hdef hsig (.declaration decl.text)
      ((h₁.reporting _).logged log) rfl rfl
    refine ⟨r, s', ?_, hs', ?_⟩
    · rw [if_pos hn, EStateM.run_bind, Pass.reportError, hrep]
      exact hrun
    · have htype : (Definition.data decl).type = .nothing := hty.symm.trans hn
      simp [hds, Pass.reporting, Pass.logged, Pass.storing, valueless, htype, Symbol.name_eq,
        Symbol.position_eq, hdef]
  · obtain ⟨r, s', hrun, hs', hds⟩ :=
      h.bindAt_run hv hd hdef hsig (.declaration decl.text) h₁ rfl rfl
    refine ⟨r, s', ?_, hs', ?_⟩
    · rw [if_neg hn]
      exact hrun
    · have htype : (Definition.data decl).type ≠ .nothing := fun he => hn (hty.trans he)
      simp [hds, Pass.storing, valueless, htype]

/-- Declaring a function opens its signature. -/
theorem Describes.declareFunction_run (h : o.Describes s) (hv : o.Scoped) {f : Function}
    (hd : o.CanDeclare (.function f)) (hh : o.header = none) :
    ∃ r s', (Pass.declareFunction f).run s = .ok r s' ∧
      { o.declare (.function f) with
        header := some { f.signature with params := [] } : Outline }.Describes s' ∧
      s'.diagnostics = s.diagnostics ++ o.duplicate (.function f) := by
  have hmake : (Pass.makeSymbol (.ofFunction f f.returns.named)).run s
      = .ok s.store.symbols.size
        (s.storing (s.store.addSymbol (.ofFunction f f.returns.named))) := rfl
  have h₁ : (o.write (.function f) none).Describes
      (s.storing (s.store.addSymbol (.ofFunction f f.returns.named))) := h.write hv hd rfl rfl
  obtain ⟨r, s', hrun, hs', hds⟩ :=
    h.bindAt_run hv hd rfl rfl (.function f.name.name) h₁ rfl rfl
  refine ⟨r, _, ?_, hs'.inHeader _, hds⟩
  rw [Pass.declareFunction_eq f (h.header.trans hh)]
  simp only [EStateM.run_bind, typeNamed_run f.returns hd.2.2.2, hmake]
  simp only [show (Pass.bindAt f.id _ _).run _ = _ from hrun]
  rfl

/-- A use of a name is resolved, counted and recorded, or reported. -/
theorem Describes.resolveAt_run (h : o.Describes s) (hv : o.Scoped) {node : NodeId}
    (hn : o.CanRefer node) (name : Identifier) (use : Use) (subject : Subject) :
    ∃ s', (Pass.resolveAt node name use subject).run s = .ok () s' ∧
      (o.refer node name use).Describes s' ∧
      s'.diagnostics = s.diagnostics ++ o.unresolved name use ∧
      ∀ ref, (s'.store.symbol ref).refs = (s.store.symbol ref).refs
        + if (resolution o.scope name use).toOption.map Entry.place = some ref then 1 else 0 := by
  obtain ⟨k, hk, -⟩ := h.active_isSome hv hn.1
  have hfind := h.find?_eq hv hk name.name
  -- the three ways a use can end are those of `resolution`, and only the fitting one counts
  cases hl : lookup o.scope name.name with
  | none =>
    have hr : resolution o.scope name use = .error (.undefinedSymbol name.name) := by
      simp [resolution, hl]
    rw [hl] at hfind
    obtain ⟨log, hrun⟩ := Pass.resolveAt_run_undefined node use subject hk hfind
    refine ⟨_, hrun, ((h.refer_error hv hn hr).reporting _).logged log, ?_, ?_⟩
    · simp [unresolved, hr, Pass.reporting, Pass.logged]
    · intro ref
      rw [hr]
      exact (UInt32.add_zero _).symm
  | some entry =>
    rw [hl] at hfind
    obtain ⟨x, hm⟩ := hv.visible_declared (lookup_mem hl)
    have hcls : (s.store.symbol entry.place).cls = entry.definition.cls := by
      rw [Symbol.cls_eq, (h.symbol hm).1]
    by_cases hc : entry.definition.cls = use.expects
    · have hr : resolution o.scope name use = .ok entry := resolution_ok.mpr ⟨hl, hc⟩
      have hnew : s.store.notes.symbols.get node = none := by
        rw [h.slots, symbolOf, hn.2]
        rfl
      obtain ⟨log, hrun⟩ := Pass.resolveAt_run_ok subject hk hfind (hcls.trans hc) hnew
      refine ⟨_, hrun, ?_, by simp [unresolved, hr, Pass.storing, Pass.logged], ?_⟩
      · have hcounted := h.modifySymbol entry.place (f := fun x => { x with refs := x.refs + 1 })
          fun x => ⟨rfl, rfl, rfl⟩
        exact (hcounted.refer_ok hv hn hr).logged log
      · intro ref
        rw [hr]
        simp only [Except.toOption, Option.map_some, Option.some.injEq]
        exact s.store.refs_countRef (h.lt_count hm) ref
    · have hr : resolution o.scope name use = .error (use.mismatch name.name) := by
        simp [resolution, hl, hc]
      obtain ⟨log, hrun⟩ :=
        Pass.resolveAt_run_mismatch node subject hk hfind fun he => hc (hcls.symm.trans he)
      refine ⟨_, hrun, ((h.refer_error hv hn hr).reporting _).logged log, ?_, ?_⟩
      · simp [unresolved, hr, Pass.reporting, Pass.logged]
      · intro ref
        rw [hr]
        exact (UInt32.add_zero _).symm

theorem Describes.settle_run (h : o.Describes s) {e : Expr} (he : o.CanSettle e) (type : Ty) :
    ∃ s', (Pass.recordType e type).run s = .ok () s' ∧ (o.settle e (some type)).Describes s' ∧
      s'.diagnostics = s.diagnostics := by
  have hlit : ∀ id token given, e ≠ .literal id token given := by
    rintro id token given rfl
    exact absurd he.2 (by simp [Expr.isLiteral])
  have hnew : s.store.notes.types.get e.id = none := by
    rw [h.types, he.1]
    rfl
  obtain ⟨log, hrun⟩ := Pass.recordType_run type hlit hnew
  exact ⟨_, hrun, (h.settle_some e type).logged log, rfl⟩

/-- A type rule is applied: what it says is reported. -/
theorem Describes.apply_run (h : o.Describes s) (position : Position)
    (checked : Except TypeError Checked) :
    ∃ s', (Pass.apply position checked).run s = .ok (checked.toOption.map Checked.type) s' ∧
      o.Describes s' ∧ s'.diagnostics = s.diagnostics ++ ruling position checked := by
  obtain ⟨log, ds, hrun, rfl⟩ := Pass.apply_run s position checked
  refine ⟨_, hrun, (h.reporting _).logged log, ?_⟩
  rcases checked with e | ⟨type, warning⟩
  · rfl
  · cases warning <;> rfl

theorem Describes.typeBy_run (h : o.Describes s) {e : Expr} (he : o.CanSettle e)
    (position : Position) (checked : Except TypeError Checked) :
    ∃ s', (Pass.typeBy e position checked).run s = .ok () s' ∧
      (o.settle e (checked.toOption.map Checked.type)).Describes s' ∧
      s'.diagnostics = s.diagnostics ++ ruling position checked := by
  obtain ⟨s₁, hrun, h₁, hds⟩ := h.apply_run position checked
  simp only [Pass.typeBy, EStateM.run_bind, hrun]
  cases hc : checked.toOption.map Checked.type with
  | none => exact ⟨s₁, rfl, h₁.settle_none he, hds⟩
  | some type =>
    obtain ⟨s₂, hrec, h₂, hds₂⟩ := h₁.settle_run he type
    exact ⟨s₂, hrec, h₂, hds₂.trans hds⟩

/-- Closing a signature stores it on the function and on its symbol, if it has one. -/
theorem Describes.finishSignature_run (h : o.Describes s) (hv : o.Valid) {f : Function}
    (hf : o.function = some f) (hh : o.header = some f.signature)
    (hs : o.signatures.get f.id = none) :
    ∃ s', (Pass.finishSignature f).run s = .ok () s' ∧ (o.step (.exitParams f)).Describes s' ∧
      s'.diagnostics = s.diagnostics ∧
      ∀ {k : SymbolRef} {n : NodeId} {decl : Decl}, o.declared[k]? = some (n, .data decl) →
        s'.store.symbol k = s.store.symbol k := by
  obtain ⟨node, hm⟩ := hv.functions.current hf
  obtain ⟨place, hplace⟩ := List.mem_iff_getElem?.mp hm
  have hheader : s.header = some f.signature := h.header.trans hh
  have hnew : s.store.notes.signatures.get f.id = none := by rw [h.signatures, hs]
  obtain ⟨log, hrec⟩ : ∃ log, (Pass.recordSignature f.id f.signature (.signatureOf f.name.name)).run
      { s with header := none, log := s.log.push (.signed f.signature) }
      = .ok () { s with
          header := none
          store := s.store.annotate (s.store.notes.withSignature f.id f.signature)
          log } :=
    ⟨_, Pass.record_run (Annotations.fillSignature_eq _ (by exact hnew))⟩
  simp only [Pass.finishSignature, Pass.note, EStateM.run_bind, EStateM.run_get, hheader,
    EStateM.run_modify, hrec, Pass.symbolOf, EStateM.run_pure]
  rcases hv.names.symbolOf_own hplace with hself | hself
  · -- The name was bound: the symbol is signed as well.
    have hslot : (s.store.notes.withSignature f.id f.signature).symbols.get f.id = some place :=
      (h.slots f.id).trans (congrArg _ hself)
    have hunsigned : (s.store.symbol place).signature = none := (h.signature hplace hself).trans hs
    simp only [Store.notes_annotate, hslot, Pass.signSymbol, EStateM.run_bind, EStateM.run_get,
      Store.symbol_annotate, hunsigned, Option.isSome_none, Bool.false_eq_true, if_false,
      EStateM.run_modify]
    refine ⟨_, rfl, ((h.sign hplace hself).inHeader none).logged log, rfl, ?_⟩
    intro k n decl hdata
    -- only the symbol of a function is changed, hence no data
    have hne : place ≠ k := by
      intro hk
      subst hk
      cases hplace.symm.trans hdata
    exact (Store.symbol_modifySymbol_eq _ _ _ _).trans (if_neg fun hk => hne hk.1)
  · have hslot : (s.store.notes.withSignature f.id f.signature).symbols.get f.id = none :=
      (h.slots f.id).trans (congrArg _ hself)
    simp only [Store.notes_annotate, hslot]
    exact ⟨_, rfl, ((h.sign_refused hself).inHeader none).logged log, rfl, fun _ => rfl⟩

theorem Describes.checkInit_run (h : o.Describes s) {d : DataDef}
    (ht : d.decl.type.type?.isSome) :
    ∃ s', (Pass.checkInit d).run s = .ok () s' ∧ o.Describes s' ∧
      s'.diagnostics = s.diagnostics ++ o.reports (.exitData d) := by
  simp only [Pass.checkInit, EStateM.run_bind, typeNamed_run _ ht]
  -- each early return of the check is an outline without a question
  by_cases hn : d.decl.type.named = .nothing
  · rw [if_pos hn]
    refine ⟨s, rfl, h, ?_⟩
    have hq : o.question (.exitData d) = none := by
      simp only [question, hn, if_true]
      cases d.init.bind o.typeOf <;> rfl
    simp [reports, remarks, hq]
  · rw [if_neg hn]
    cases hi : d.init with
    | none => exact ⟨s, rfl, h, by simp [reports, remarks, question, hi]⟩
    | some init =>
      simp only [EStateM.run_bind, h.typeOf_run]
      cases hv : o.typeOf init with
      | none => exact ⟨s, rfl, h, by simp [reports, remarks, question, hi, hv]⟩
      | some value =>
        obtain ⟨s₁, hrun, h₁, hds⟩ := h.apply_run d.decl.name.position
          (Rules.assignment d.decl.type.named value)
        have hrep : s₁.diagnostics = s.diagnostics ++ o.reports (.exitData d) := by
          simp [hds, reports, remarks, question, hi, hv, hn]
        simp only [EStateM.run_bind, hrun]
        cases (Rules.assignment d.decl.type.named value).toOption.map Checked.type with
        | none => exact ⟨s₁, rfl, h₁, hrep⟩
        | some type =>
          simp only [EStateM.run_bind, h₁.symbolOf_run]
          cases o.symbolOf d.decl.id with
          | none => exact ⟨s₁, rfl, h₁, hrep⟩
          | some entry =>
            have hm := h₁.modifySymbol entry.place (f := fun x => { x with isInit := true })
              fun x => ⟨rfl, rfl, rfl⟩
            exact ⟨_, rfl, hm, hrep⟩

theorem Describes.checkAssign_run (h : o.Describes s) (hv : o.Scoped) (a : Assignment) :
    ∃ s', (Pass.checkAssign a).run s = .ok () s' ∧ o.Describes s' ∧
      s'.diagnostics = s.diagnostics ++ o.reports (.exitAssign a) := by
  simp only [Pass.checkAssign, EStateM.run_bind, h.symbolOf_run]
  cases hs : o.symbolOf a.id with
  | none => exact ⟨s, rfl, h, by simp [reports, remarks, question, hs]⟩
  | some entry =>
    simp only [Option.map_some, EStateM.run_bind, h.typeOf_run]
    cases ht : o.typeOf a.value with
    | none => exact ⟨s, rfl, h, by simp [reports, remarks, question, hs, ht]⟩
    | some value =>
      obtain ⟨⟨node, hd⟩, -⟩ := hv.slot hs
      obtain ⟨s₁, hrun, h₁, hds⟩ := h.apply_run a.target.position
        (Rules.assignment entry.definition.type value)
      have hrep : s₁.diagnostics = s.diagnostics ++ o.reports (.exitAssign a) := by
        simp [hds, reports, remarks, question, hs, ht]
      simp only [EStateM.run_bind, EStateM.run_get, (h.symbol hd).2, hrun]
      cases (Rules.assignment entry.definition.type value).toOption.map Checked.type with
      | none => exact ⟨s₁, rfl, h₁, hrep⟩
      | some type =>
        have hm := h₁.modifySymbol entry.place (f := fun x => { x with isInit := true })
          fun x => ⟨rfl, rfl, rfl⟩
        exact ⟨_, rfl, hm, hrep⟩

theorem Describes.checkReturn_run (h : o.Describes s) {keyword : Token} {value : Option Expr}
    (ht : ∀ f, o.function = some f → f.returns.type?.isSome) :
    ∃ s', (Pass.checkReturn keyword value).run s = .ok () s' ∧ o.Describes s' ∧
      s'.diagnostics = s.diagnostics ++ o.reports (.exitReturn keyword value) := by
  simp only [Pass.checkReturn, EStateM.run_bind, EStateM.run_get, h.function]
  cases hf : o.function with
  | none => exact ⟨s, rfl, h, by simp [reports, remarks, misreturn, question, hf]⟩
  | some f =>
    simp only [EStateM.run_bind, typeNamed_run _ (ht f hf)]
    -- A report about the number of values, the type rules apart.
    have hsay : ∀ finding : Finding, ∃ s',
        (Pass.reportError keyword.position finding).run s = .ok () s' ∧ o.Describes s' ∧
          s'.diagnostics = s.diagnostics ++ [⟨.error, keyword.position, finding⟩] := by
      intro finding
      obtain ⟨log, hrep⟩ := Pass.report_run s .error keyword.position finding
      exact ⟨_, hrep, (h.reporting _).logged log, rfl⟩
    by_cases hn : f.returns.named = .nothing
    · cases value with
      | none => exact ⟨s, by simp [hn], h, by simp [reports, remarks, misreturn, question, hf, hn]⟩
      | some value =>
        obtain ⟨s', hrun, hs', hds⟩ := hsay (.semantic (.unexpectedReturnValue f.name.name))
        refine ⟨s', by simpa [hn] using hrun, hs', ?_⟩
        cases hv : o.typeOf value <;>
          simp [hds, reports, remarks, misreturn, question, hf, hn, hv]
    · cases value with
      | none =>
        obtain ⟨s', hrun, hs', hds⟩ :=
          hsay (.semantic (.missingReturnValue f.name.name f.returns.named))
        refine ⟨s', by simpa [hn] using hrun, hs', ?_⟩
        simp [hds, reports, remarks, misreturn, question, hf, hn]
      | some value =>
        simp only [hn, if_false, EStateM.run_bind, h.typeOf_run]
        cases hv : o.typeOf value with
        | none =>
          exact ⟨s, rfl, h, by simp [reports, remarks, misreturn, question, hf, hn, hv]⟩
        | some type =>
          obtain ⟨s₁, hrun, h₁, hds⟩ := h.apply_run keyword.position
            (Rules.assignment f.returns.named type)
          refine ⟨s₁, by simp only [EStateM.run_bind, hrun]; rfl, h₁, ?_⟩
          simp [hds, reports, remarks, misreturn, question, hf, hn, hv]

/-- The arguments of a call are checked, and the call has the type that its function returns. -/
theorem Describes.checkCall_run (h : o.Describes s) (hv : o.Valid) {e : Expr} {callee : Identifier}
    {args : List Expr} (he : o.CanSettle e) (hh : o.header = none)
    (hc : ∀ entry, o.symbolOf e.nameNode = some entry → entry.definition.cls = .function) :
    ∃ s', (Pass.checkCall e callee args).run s = .ok () s' ∧
      (o.step (.exitCall e callee args)).Describes s' ∧
      s'.diagnostics = s.diagnostics ++ o.reports (.exitCall e callee args) := by
  simp only [Pass.checkCall, EStateM.run_bind, h.symbolOf_run, Outline.step]
  cases hs : o.symbolOf e.nameNode with
  | none =>
    exact ⟨s, rfl, h.settle_none he, by simp [reports, remarks, misfit, question, hs]⟩
  | some entry =>
    obtain ⟨place, d⟩ := entry
    obtain ⟨⟨node, hd⟩, hself⟩ := hv.names.slot hs
    cases d with
    | data decl => exact absurd (hc _ hs) (by simp [Definition.cls])
    | function f =>
      -- no signature is open inside an expression, so that of the callee is finished, even in the
      -- body of the callee itself
      have hsigned : o.signatures.get f.id = some f.signature := by
        rcases hv.functions.signed (List.mem_of_getElem? hd) with hsg | ⟨hopen, -⟩
        · exact hsg
        · rw [hh] at hopen
          cases hopen
      have hsymbol : (s.store.symbol place).signature = some f.signature :=
        (h.signature hd hself).trans hsigned
      have hargs : args.map s.store.notes.typeOf = args.map o.typeOf :=
        List.map_congr_left fun arg _ => h.typeOf arg
      simp only [Option.map_some, EStateM.run_bind, EStateM.run_get, hsymbol, hargs]
      cases hval : f.signature.validate (args.map o.typeOf) with
      | ok u =>
        obtain ⟨s₁, hrun, h₁, hds⟩ := h.settle_run he f.signature.returns
        refine ⟨s₁, hrun, h₁, ?_⟩
        simp [hds, reports, remarks, misfit, question, hs, hval]
      | error err =>
        obtain ⟨log, hrep⟩ := Pass.report_run s .error callee.position (.call err)
        obtain ⟨s₁, hrun, h₁, hds⟩ :=
          ((h.reporting [⟨.error, callee.position, .call err⟩]).logged log).settle_run he
            f.signature.returns
        refine ⟨s₁, by simp only [EStateM.run_bind, Pass.reportError, hrep, hrun], h₁, ?_⟩
        simp [hds, reports, remarks, misfit, question, hs, hval, Pass.reporting, Pass.logged]

/-! ## Scopes -/

theorem Describes.open_run (h : o.Describes s) (hv : o.Scoped) {node : NodeId}
    (hn : o.Unopened node) (label : String) (subject : Subject) :
    ∃ s', (do let scope ← Pass.openScope label; Pass.recordScope node scope subject : PassM Unit).run s
        = .ok () s' ∧ (o.opened node).Describes s' ∧ s'.diagnostics = s.diagnostics := by
  obtain ⟨log, hrun⟩ := Pass.open_run label subject (h.scopes_eq_none hn)
  exact ⟨_, hrun, (h.opened hv hn).logged log, rfl⟩

theorem Describes.leave_run (h : o.Describes s) (hv : o.Scoped) (hf : o.frames ≠ []) :
    ∃ r s', Pass.leaveScope.run s = .ok r s' ∧ o.closed.Describes s' ∧
      s'.diagnostics = s.diagnostics := by
  obtain ⟨k, hk, -⟩ := h.active_isSome hv hf
  obtain ⟨log, hrun⟩ := Pass.leaveScope_run hk
  exact ⟨_, _, hrun, h.closed hv hk log, rfl⟩

/-- A parameter is declared, and its type added to the signature that is open. -/
theorem Describes.enterParam_run (h : o.Describes s) (hv : o.Scoped) {f : Function} {d : Decl}
    (hd : o.CanDeclare (.data d)) (hh : o.header.isSome) :
    ∃ r s', (Pass.declareParam d).run s = .ok r s' ∧ (o.step (.enterParam f d)).Describes s' ∧
      s'.diagnostics = s.diagnostics ++ o.reports (.enterParam f d) := by
  obtain ⟨header, hheader⟩ := Option.isSome_iff_exists.mp hh
  -- The signature grows first; declaring does not look at it.
  let grown : Option Signature := some { header with params := header.params ++ [d.type.named] }
  have hcomm : o.step (.enterParam f d) = Outline.declare { o with header := grown } (.data d) := by
    rcases o with ⟨_, _ | ⟨frame, outer⟩, _, _, _, _, _, _, _⟩ <;> cases hheader <;> rfl
  obtain ⟨r, s', hrun, hs', hds⟩ := (h.inHeader grown).declare_run (hv.same rfl rfl rfl rfl)
    (.ofParam d d.type.named) hd rfl rfl rfl
  refine ⟨r, s', ?_, hcomm ▸ hs', ?_⟩
  · simp only [Pass.declareParam, EStateM.run_bind, typeNamed_run d.type hd.2.2.2,
      EStateM.run_get, h.header, hheader, EStateM.run_modify]
    exact hrun
  · rw [hds]
    simp [reports, remarks, question, duplicate, scope]

/-- An operation is typed by the rule that it asks, and left untyped if it asks none. -/
theorem Describes.operation_run (h : o.Describes s) {e : Expr} (event : Event)
    (he : o.CanSettle e) (hstep : o.step event = o.settle e (o.answer event))
    (hr : o.remarks event = [])
    (hvisit : (Pass.visit event).run s = match o.question event with
      | none => .ok () s
      | some (position, checked) => (Pass.typeBy e position checked).run s) :
    ∃ s', (Pass.visit event).run s = .ok () s' ∧ (o.step event).Describes s' ∧
      s'.diagnostics = s.diagnostics ++ o.reports event := by
  rw [hvisit, hstep, answer, reports, hr]
  cases o.question event with
  | none => exact ⟨s, rfl, h.settle_none he, by simp⟩
  | some asked => exact h.typeBy_run he asked.1 asked.2

/-- **One event of the check.** Where the event is expected and its literal, if it is one, has a
type, the check takes the step of the outline and reports what the outline says. -/
theorem Describes.visit_run (h : o.Describes s) (hv : o.Valid) {event : Event}
    (hp : o.Permits event) (hl : event.untyped? o.literals = none) :
    ∃ s', (Pass.visit event).run s = .ok () s' ∧ (o.step event).Describes s' ∧
      s'.diagnostics = s.diagnostics ++ o.reports event := by
  -- most events report nothing, and then nothing has to be said about diagnostics
  have hquiet : ∀ {event : Event}, o.remarks event = [] → o.question event = none →
      s.diagnostics ++ o.reports event = s.diagnostics := by
    intro event hr hq
    simp [reports, hr, hq]
  cases event with
  | enterProgram p =>
    obtain ⟨s', hrun, hs', hds⟩ := h.open_run hv.names (unopened_of_nil hp.1) "program" (.program p.file)
    exact ⟨s', hrun, hs', hds.trans (hquiet rfl rfl).symm⟩
  | enterBlock b =>
    obtain ⟨s', hrun, hs', hds⟩ := h.open_run hv.names hp.2 "block" (.block b.position)
    exact ⟨s', hrun, hs', hds.trans (hquiet rfl rfl).symm⟩
  | exitProgram p =>
    obtain ⟨r, s', hrun, hs', hds⟩ := h.leave_run hv.names hp
    exact ⟨s', by simp only [Pass.visit, EStateM.run_bind, hrun]; rfl, hs',
      hds.trans (hquiet rfl rfl).symm⟩
  | exitBlock b =>
    obtain ⟨r, s', hrun, hs', hds⟩ := h.leave_run hv.names hp
    exact ⟨s', by simp only [Pass.visit, EStateM.run_bind, hrun]; rfl, hs',
      hds.trans (hquiet rfl rfl).symm⟩
  | exitFunction f =>
    obtain ⟨r, s', hrun, hs', hds⟩ := h.leave_run hv.names hp.1
    refine ⟨{ s' with function := none }, ?_, hs'.inFunction none,
      hds.trans (hquiet rfl rfl).symm⟩
    simp only [Pass.visit, EStateM.run_bind, hrun, EStateM.run_modify]
  | enterStart b => exact ⟨_, rfl, h.inFunction none, (hquiet rfl rfl).symm⟩
  | enterDecl d =>
    obtain ⟨r, s', hrun, hs', hds⟩ :=
      h.declare_run hv.names (.ofData d d.type.named) hp rfl rfl rfl
    refine ⟨s', ?_, hs', by simpa [reports, remarks, question] using hds⟩
    simp only [Pass.visit, Pass.declareData, EStateM.run_bind,
      typeNamed_run d.type hp.2.2.2, hrun]
    rfl
  | enterFunction f =>
    obtain ⟨hd, hn, hh⟩ := hp
    obtain ⟨r, s₁, hrun, h₁, hds⟩ := h.declareFunction_run hv.names hd hh
    -- the scope is opened in the state behind the declaration, so what `open_run` asks for has to
    -- be carried over to it
    have hv₁ : Scoped { o.declare (.function f) with
        header := some { f.signature with params := [] } } :=
      (hv.names.declare hd).same rfl rfl rfl rfl
    have hn₁ : ∀ around, (f.id, around) ∉ (o.declare (.function f)).regions := by
      rw [(declare_frame o (.function f)).1]
      exact hn
    obtain ⟨s₂, hopen, h₂, hds₂⟩ := h₁.open_run hv₁ hn₁ f.name.name (.scopeOf f.name.name)
    refine ⟨{ s₂ with function := some f }, ?_, h₂.inFunction (some f), ?_⟩
    · rw [Pass.visit_enterFunction, EStateM.run_bind, hrun]
      dsimp only
      rw [Pass.openFunction, EStateM.run_bind, hopen]
      rfl
    · simp [hds₂, hds, reports, remarks, question]
  | enterParam f d =>
    obtain ⟨r, s', hrun, hs', hds⟩ := h.enterParam_run hv.names (f := f) hp.1 hp.2
    exact ⟨s', by simp only [Pass.visit, EStateM.run_bind, hrun]; rfl, hs', hds⟩
  | exitParams f =>
    obtain ⟨s', hrun, hs', hds, -⟩ := h.finishSignature_run hv hp.1 hp.2.1 hp.2.2
    exact ⟨s', hrun, hs', hds.trans (hquiet rfl rfl).symm⟩
  | enterAssign a =>
    obtain ⟨s', hrun, hs', hds, -⟩ := h.resolveAt_run hv.names hp a.target .target _
    exact ⟨s', hrun, hs', by simpa [reports, remarks, question] using hds⟩
  | enterVariable e name =>
    obtain ⟨s', hrun, hs', hds, -⟩ := h.resolveAt_run hv.names hp name .value _
    exact ⟨s', hrun, hs', by simpa [reports, remarks, question] using hds⟩
  | enterCall e callee args =>
    obtain ⟨s', hrun, hs', hds, -⟩ := h.resolveAt_run hv.names hp callee .callee _
    exact ⟨s', hrun, hs', by simpa [reports, remarks, question] using hds⟩
  | exitVariable e name =>
    simp only [Pass.visit, EStateM.run_bind, h.symbolOf_run, Outline.step]
    rw [hquiet rfl rfl]
    cases hs : o.symbolOf e.nameNode with
    | none => exact ⟨s, rfl, h.settle_none hp.1, rfl⟩
    | some entry =>
      obtain ⟨⟨node, hd⟩, -⟩ := hv.names.slot hs
      simp only [Option.map_some, EStateM.run_bind, EStateM.run_get, (h.symbol hd).2]
      exact h.settle_run hp.1 entry.definition.type
  | exitCall e callee args => exact h.checkCall_run hv hp.1 hp.2.2.2.1 hp.2.2.2.2
  | exitBinary e op token lhs rhs =>
    refine h.operation_run (.exitBinary e op token lhs rhs) hp.1 rfl rfl ?_
    simp only [Pass.visit, question, EStateM.run_bind, h.typeOf_run]
    cases o.typeOf lhs with
    | none => rfl
    | some l => simp only [EStateM.run_bind, h.typeOf_run]; cases o.typeOf rhs <;> rfl
  | exitUnary e op token operand =>
    refine h.operation_run (.exitUnary e op token operand) hp.1 rfl rfl ?_
    simp only [Pass.visit, question, EStateM.run_bind, h.typeOf_run]
    cases o.typeOf operand <;> rfl
  | exitCast e target operand =>
    refine h.operation_run (.exitCast e target operand) hp.1 rfl rfl ?_
    simp only [Pass.visit, question, EStateM.run_bind, typeNamed_run _ hp.2.2, h.typeOf_run]
    cases o.typeOf operand <;> rfl
  | exitGrouped e inner =>
    simp only [Pass.visit, EStateM.run_bind, h.typeOf_run, Outline.step]
    rw [hquiet rfl rfl]
    cases ht : o.typeOf inner with
    | none => exact ⟨s, rfl, h.settle_none hp.1, rfl⟩
    | some type => exact h.settle_run hp.1 type
  | exitFormat e token args =>
    obtain ⟨s', hrun, hs', hds⟩ := h.settle_run hp .string
    exact ⟨s', hrun, hs', hds.trans (hquiet rfl rfl).symm⟩
  | exitData d => exact h.checkInit_run hp.1
  | exitAssign a => exact h.checkAssign_run hv.names a
  | exitReturn keyword value => exact h.checkReturn_run hp.1
  | exitLiteral e token =>
    refine ⟨s, ?_, h, (hquiet rfl rfl).symm⟩
    cases e with
    | literal id t given =>
      -- the one place where the hypothesis about literals is needed
      have ht : (o.typeOf (.literal id t given)).isNone = false := by
        cases hg : (o.typeOf (.literal id t given)).isNone with
        | false => rfl
        | true => exact absurd hl (by simp [Event.untyped?, show (given.or _).isNone = true from hg])
      simp only [Pass.visit, EStateM.run_bind, h.typeOf_run, ht]
      rfl
    | _ => exact absurd hp (by simp [Permits, Expr.isLiteral])
  | enterImport | exitStart | enterData | enterIf | exitIf | enterWhile | exitWhile | enterDo
  | exitDo | exitYield | enterBreak | enterContinue | enterInline | enterExpr | exitExpr =>
    exact ⟨s, rfl, h, (hquiet rfl rfl).symm⟩

end Outline

end Semant
