import Semant.Compile
import Semant.Proofs.Dump
import Semant.Proofs.Json.Numerals
import Semant.Proofs.Load

/-!
# Which analyses complete

The analysis has errors of its own, for trees that no front end should build: a scope left that was
not entered, a cell filled twice, a signature opened inside another. None of them can be had from a
tree in which no node occurs twice and every type is named. The one that is left is a literal
without a type.

Trees of documents have no such literals either. Reports consist of records, the keys of which are
texts, so they can be written. Hence compiling a document fails only if it does not load.
-/

set_option autoImplicit false

namespace Semant

/-! ## Writing reports -/

namespace Json.Datum

/-- A record can be written if its fields can. -/
theorem value_record {fields : List (String × Datum)} {values : List (String × Json)}
    (h : fields.map (fun field => (field.1, field.2.value))
      = values.map fun field => (field.1, .ok field.2)) :
    (record fields).value = .ok (.object values) := by
  suffices hentries : entryValues (fields.map fun field => (.string field.1, field.2)) = .ok values by
    rw [record, value, hentries]
    rfl
  induction fields generalizing values with
  | nil =>
    cases List.map_eq_nil_iff.mp h.symm
    rfl
  | cons field rest ih =>
    cases values with
    | nil => cases h
    | cons first others =>
      obtain ⟨hfirst, hothers⟩ := List.cons.inj h
      obtain ⟨hkey, hvalue⟩ := Prod.mk.inj hfirst
      rw [List.map_cons, entryValues, hvalue, ih hothers, hkey]
      rfl

theorem elementValues_map {α : Type} {datum : α → Datum} {value : α → Json}
    (h : ∀ a, (datum a).value = .ok (value a)) (as : List α) :
    elementValues (as.map datum) = .ok (as.map value) := by
  induction as with
  | nil => rfl
  | cons a rest ih =>
    rw [List.map_cons, elementValues, h, ih]
    rfl

end Json.Datum

/-- A position as a JSON value. -/
def Position.toJson (p : Position) : Json :=
  .object [("file", .string p.file), ("line", .ofNat p.line.toNat),
    ("column", .ofNat p.column.toNat)]

/-- A diagnostic as a JSON value. -/
def Diagnostic.toJson (d : Diagnostic) : Json :=
  .object [("severity", .string d.severity.text), ("code", .string d.code.text),
    ("position", d.position.toJson), ("message", .string d.message)]

/-- A report as a JSON value. -/
def Report.toJson (r : Report) : Json :=
  .object ([("file", .string r.file), ("succeeded", .bool r.succeeded),
    ("errors", .ofNat r.errors), ("warnings", .ofNat r.warnings),
    ("diagnostics", .array (r.diagnostics.map Diagnostic.toJson))]
    ++ (match r.symbols with
      | some text => [("symbols", .string text)]
      | none => []))

theorem Report.value_datum (r : Report) : r.datum.value = .ok r.toJson := by
  have hdiagnostic : ∀ d : Diagnostic, d.datum.value = .ok d.toJson := fun _ => rfl
  have hdiagnostics : (Json.Datum.sequence (r.diagnostics.map Diagnostic.datum)).value
      = .ok (.array (r.diagnostics.map Diagnostic.toJson)) := by
    rw [Json.Datum.value, Json.Datum.elementValues_map hdiagnostic]
    rfl
  refine Json.Datum.value_record ?_
  cases r.symbols with
  | none =>
    simp only [List.map_append, List.map_cons, hdiagnostics]
    rfl
  | some text =>
    simp only [List.map_append, List.map_cons, hdiagnostics]
    rfl

/-- **Every report can be written.** -/
theorem Report.json_eq (r : Report) : r.json = .ok (r.toJson.pretty ++ "\n") := by
  rw [Report.json, Json.Datum.write, r.value_datum]
  rfl

theorem Report.render_ok (r : Report) (format : MessageFormat) :
    ∃ output, r.render format = .ok output := by
  cases format with
  | human => exact ⟨r.human, rfl⟩
  | json => exact ⟨_, r.json_eq⟩

/-! ## Compiling -/

/-- A program with typed literals is analysed and reported on, with the same findings whether it is
dumped or not. -/
theorem Program.report_ok {p : Program} {literals : Cells Ty} (hn : p.nodes.Nodup)
    (ht : ∀ token ∈ p.typeNames, token.type?.isSome) (hl : p.untyped? literals = none) :
    ∃ a pass symbols dumped, (Pass.analyze p).run (Pass.start literals) = .ok a pass ∧
      (Pass.dump p).run pass = .ok symbols dumped ∧
      ∀ dump, ∃ s, (p.report dump).run (Pass.start literals)
        = .ok (a.report (if dump then some symbols else none)) s := by
  obtain ⟨checked, hcheck, hchecked, -⟩ := Pass.check_ok hn ht hl
  have hanalyze := Pass.analyze_run p (Pass.start literals)
  rw [hcheck] at hanalyze
  obtain ⟨symbols, dumped, hdump, -⟩ := Pass.dump_ok hn ht (hchecked.logged _)
  refine ⟨_, _, symbols, dumped, hanalyze, hdump, fun dump => ?_⟩
  simp only [Program.report, EStateM.run_bind, hanalyze]
  cases dump with
  | false => exact ⟨_, rfl⟩
  | true =>
    simp only [if_true, map_eq_pure_bind, EStateM.run_bind, hdump]
    exact ⟨dumped, rfl⟩

theorem compile_of_report {text : String} {options : CompileOptions} {p : Program} {next : Nat}
    {r : Report} {s : Pass} {output : String} (hload : Program.load text 0 = .ok (p, next))
    (hreport : (p.report options.dumpSymbols).run (Pass.start .empty) = .ok r s)
    (hrender : r.render options.format = .ok output) :
    (compile text options).1 = .ok ⟨output, r.errors, r.warnings⟩ := by
  unfold compile
  rw [hload]
  simp only [hreport, hrender]

theorem compile_of_load_error {text : String} {error : LoadError}
    (h : Program.load text 0 = .error error) (options : CompileOptions) :
    (compile text options).1 = .error (.document error) := by
  unfold compile
  rw [h]

/-- A document that loads is compiled, and the counts are those of the analysis of its program. -/
theorem compile_of_load {text : String} {p : Program} {next : Nat}
    (h : Program.load text 0 = .ok (p, next)) (options : CompileOptions) :
    ∃ a s output, (Pass.analyze p).run (Pass.start .empty) = .ok a s ∧
      (compile text options).1 = .ok ⟨output, a.errorCount, a.warningCount⟩ := by
  obtain ⟨hn, ht, hl⟩ := Program.load_ok h
  obtain ⟨a, s, _, _, hanalyze, -, hreport⟩ := Program.report_ok hn ht (hl .empty)
  obtain ⟨s', hs'⟩ := hreport options.dumpSymbols
  obtain ⟨output, houtput⟩ := Report.render_ok _ options.format
  exact ⟨a, s, output, hanalyze, compile_of_report h hs' houtput⟩

/-- **Internal errors are raised exactly when a literal has no type.** In a tree in which no node
occurs twice and every type is named, the analysis goes through if and only if every literal that
is read has a type. Otherwise it stops at the first one that has none.

A document that loads gives a tree without such literals. Its program is analysed, and compiling it gives
the counts of the analysis, in any format and with or without a dump; one that does not load is refused
for that reason. Compiling meets no internal error and writes every report. -/
theorem analyze_completes_iff_literals_typed (store : Store) (p : Program) (hn : p.nodes.Nodup)
    (ht : ∀ token ∈ p.typeNames, token.type?.isSome) :
    ((∃ a, (store.analyze p).1 = .ok a) ↔
        ∀ e token, .exitLiteral e token ∈ p.events → (store.notes.typeOf e).isSome) ∧
      (∀ token, p.untyped? store.notes.literals = some token →
        (store.analyze p).1 = .error (.untypedLiteral token.raw token.position)) ∧
      (∀ text options error, (compile text options).1 ≠ .error (.internal error)) ∧
      (∀ text options error, (compile text options).1 ≠ .error (.report error)) ∧
      (∀ text error, Program.load text 0 = .error error →
        ∀ options, (compile text options).1 = .error (.document error)) ∧
      ∀ text program next, Program.load text 0 = .ok (program, next) →
        ∀ options, ∃ a s output, (Pass.analyze program).run (Pass.start .empty) = .ok a s ∧
          (compile text options).1 = .ok ⟨output, a.errorCount, a.warningCount⟩ := by
  -- a compilation is refused for its document or goes through, so the two other errors are excluded
  -- alike
  have hcompile : ∀ text options, (∃ error, (compile text options).1 = .error (.document error)) ∨
      ∃ c, (compile text options).1 = .ok c := by
    intro text options
    cases hload : Program.load text 0 with
    | error error => exact .inl ⟨error, compile_of_load_error hload options⟩
    | ok loaded =>
      obtain ⟨a, s, output, -, hc⟩ := compile_of_load hload options
      exact .inr ⟨_, hc⟩
  refine ⟨?_, fun token => Store.analyze_untyped hn ht, ?_, ?_,
    fun text error => compile_of_load_error, fun text program next => compile_of_load⟩
  · rw [← Program.untyped?_eq_none_iff hn ht]
    constructor
    · rintro ⟨a, ha⟩
      cases hu : p.untyped? store.notes.literals with
      | none => rfl
      | some token =>
        rw [Store.analyze_untyped hn ht hu] at ha
        cases ha
    · intro hl
      obtain ⟨s, -, -, hok⟩ := Store.analyze_ok hn ht hl
      exact ⟨_, by rw [hok]⟩
  · intro text options error herr
    rcases hcompile text options with ⟨e, he⟩ | ⟨c, hc⟩
    · cases he.symm.trans herr
    · cases hc.symm.trans herr
  · intro text options error herr
    rcases hcompile text options with ⟨e, he⟩ | ⟨c, hc⟩
    · cases he.symm.trans herr
    · cases hc.symm.trans herr

/-- Data and a block with a sum in it, of which the right side was given no type. -/
def unfinished : Program :=
  let at' (column : UInt32) : Position := ⟨"sum.dk", 1, column⟩
  { id := 0
    file := "sum.dk"
    items :=
      [.data
        { decl := ⟨1, false, ⟨.integerType, "int", at' 1⟩, ⟨"n", at' 5⟩⟩
          init := some (.literal 2 ⟨.integerLiteral, "1", at' 9⟩ (some .int)) },
      .start
        { keyword := ⟨.startWord, "start", at' 11⟩
          body := .mk 3 ⟨.leftBrace, "\x7b", at' 17⟩
            [.expr (.binary 4 .add ⟨.plus, "+", at' 21⟩ (.var 5 105 ⟨"n", at' 19⟩)
              (.literal 6 ⟨.integerLiteral, "2", at' 23⟩ none))] }] }

/-- The sum cannot be analysed, and the literal is named. -/
theorem unfinished_stops : unfinished.nodes.Nodup ∧
    (∀ token ∈ unfinished.typeNames, token.type?.isSome) ∧
    (({} : Store).analyze unfinished).1 = .error (.untypedLiteral "2" ⟨"sum.dk", 1, 23⟩) := by
  have hn : unfinished.nodes.Nodup := by decide
  have ht : ∀ token ∈ unfinished.typeNames, token.type?.isSome := by decide
  exact ⟨hn, ht, (analyze_completes_iff_literals_typed {} unfinished hn ht).2.1 _ rfl⟩

end Semant
