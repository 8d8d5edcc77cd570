import Semant.Compile
import Semant.Proofs.Completion
import Semant.Proofs.Json.Numerals
import Semant.Proofs.Json.Printing

/-!
# The two reports

A report for tools holds all that a report for people says. Its text spells one JSON value only, whatever
characters stand in the name of the file and in the messages. The fields of this value are taken from it
by their names (`Listing.ofJson?`), and from them alone the report for people can be written down
(`Listing.human`).
-/

set_option autoImplicit false

namespace Semant

/-! ## Decoding -/

namespace Json

/-- The value of a field. -/
def field? (key : String) : Json → Option Json
  | .object fields => fields.lookup key
  | _ => none

def string? : Json → Option String
  | .string s => some s
  | _ => none

def bool? : Json → Option Bool
  | .bool b => some b
  | _ => none

def nat? : Json → Option Nat
  | .number n => n.toNat?
  | _ => none

def array? : Json → Option (List Json)
  | .array elements => some elements
  | _ => none

end Json

/-- A diagnostic as a report for tools lists it. -/
structure Listed where
  severity : String
  code : String
  file : String
  line : Nat
  column : Nat
  message : String

/-- What a report for tools says. -/
structure Listing where
  file : String
  succeeded : Bool
  errors : Nat
  warnings : Nat
  diagnostics : List Listed
  symbols : Option String

/-- Takes a diagnostic from its JSON value. -/
def Listed.ofJson? (v : Json) : Option Listed := do
  let severity ← (← v.field? "severity").string?
  let code ← (← v.field? "code").string?
  let position ← v.field? "position"
  let file ← (← position.field? "file").string?
  let line ← (← position.field? "line").nat?
  let column ← (← position.field? "column").nat?
  let message ← (← v.field? "message").string?
  return { severity, code, file, line, column, message }

/-- Takes a report from its JSON value. The dump may be missing. -/
def Listing.ofJson? (v : Json) : Option Listing := do
  let file ← (← v.field? "file").string?
  let succeeded ← (← v.field? "succeeded").bool?
  let errors ← (← v.field? "errors").nat?
  let warnings ← (← v.field? "warnings").nat?
  let diagnostics ← (← (← v.field? "diagnostics").array?).mapM Listed.ofJson?
  let symbols ← (v.field? "symbols").mapM Json.string?
  return { file, succeeded, errors, warnings, diagnostics, symbols }

/-- The line of a diagnostic. -/
def Listed.text (d : Listed) : String :=
  d.file ++ ":" ++ toString d.line ++ ":" ++ toString d.column ++ " " ++ d.severity ++ ": " ++ d.message

/-- The report for people. -/
def Listing.human (l : Listing) : String :=
  String.join (l.diagnostics.map fun d => d.text ++ "\n") ++ l.symbols.getD ""
    ++ "compile " ++ (if l.succeeded then "SUCCEEDED" else "FAILED")
    ++ ": errors = " ++ toString l.errors ++ " warnings = " ++ toString l.warnings ++ "\n"

/-! ## Encoding -/

/-- A diagnostic as it is listed. -/
def Diagnostic.listed (d : Diagnostic) : Listed :=
  { severity := d.severity.text, code := d.code.text, file := d.position.file,
    line := d.position.line.toNat, column := d.position.column.toNat, message := d.message }

/-- What a report has to say. -/
def Report.listing (r : Report) : Listing :=
  { file := r.file, succeeded := r.succeeded, errors := r.errors, warnings := r.warnings,
    diagnostics := r.diagnostics.map Diagnostic.listed, symbols := r.symbols }

theorem Diagnostic.ofJson?_toJson (d : Diagnostic) : Listed.ofJson? d.toJson = some d.listed := by
  have hline : (Json.ofNat d.position.line.toNat).nat? = some d.position.line.toNat :=
    Json.Numeral.toNat?_ofNat _
  have hcolumn : (Json.ofNat d.position.column.toNat).nat? = some d.position.column.toNat :=
    Json.Numeral.toNat?_ofNat _
  show (do
    let line ← (Json.ofNat d.position.line.toNat).nat?
    let column ← (Json.ofNat d.position.column.toNat).nat?
    return Listed.mk d.severity.text d.code.text d.position.file line column d.message) = _
  rw [hline, hcolumn]
  rfl

theorem Diagnostics.ofJson?_toJson (ds : Diagnostics) :
    (ds.map Diagnostic.toJson).mapM Listed.ofJson? = some (ds.map Diagnostic.listed) := by
  induction ds with
  | nil => rfl
  | cons d ds ih =>
    rw [List.map_cons, List.mapM_cons, d.ofJson?_toJson, ih]
    rfl

/-- What is taken from the JSON value of a report is what it has to say. -/
theorem Report.ofJson?_toJson (r : Report) : Listing.ofJson? r.toJson = some r.listing := by
  have herrors : (Json.ofNat r.errors).nat? = some r.errors := Json.Numeral.toNat?_ofNat _
  have hwarnings : (Json.ofNat r.warnings).nat? = some r.warnings := Json.Numeral.toNat?_ofNat _
  have hsymbols : (r.toJson.field? "symbols").mapM Json.string? = some r.symbols := by
    unfold Report.toJson
    cases r.symbols with
    | none => rfl
    | some text => rfl
  show (do
    let errors ← (Json.ofNat r.errors).nat?
    let warnings ← (Json.ofNat r.warnings).nat?
    let diagnostics ← (r.diagnostics.map Diagnostic.toJson).mapM Listed.ofJson?
    let symbols ← (r.toJson.field? "symbols").mapM Json.string?
    return Listing.mk r.file r.succeeded errors warnings diagnostics symbols) = _
  rw [herrors, hwarnings, Diagnostics.ofJson?_toJson, hsymbols]
  rfl

end Semant
