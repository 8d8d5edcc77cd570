import Semant.Diagnostic.Basic
import Semant.Json.Datum

/-!
# Reports

The outcome of a compilation is reported either for people, one line per diagnostic, or as a JSON
text for tools. Both say the same.
-/

set_option autoImplicit false

namespace Semant

inductive MessageFormat where
  | human
  | json
  deriving DecidableEq, Repr, Inhabited

namespace MessageFormat

def all : List MessageFormat := [human, json]

def text : MessageFormat → String
  | human => "human"
  | json => "json"

def ofText? (text : String) : Option MessageFormat :=
  all.find? fun format => format.text == text

def unknown (text : String) : String := "Unknown message format: `" ++ text ++ "`"

end MessageFormat

/-- What a report says, whatever its format. The numbers are those that were counted during the
check, and neither format counts again. -/
structure Report where
  file : String
  diagnostics : Diagnostics
  errors : Nat
  warnings : Nat
  /-- The dump of all scopes, if it was asked for. -/
  symbols : Option String := none

namespace Report

def succeeded (r : Report) : Bool := r.errors = 0

/-- The report for people. The dump stands between the diagnostics and the last line, and brings its
own ends of lines. -/
def human (r : Report) : String :=
  String.join (r.diagnostics.map fun d => d.text ++ "\n") ++ r.symbols.getD ""
    ++ "compile " ++ (if r.succeeded then "SUCCEEDED" else "FAILED")
    ++ ": errors = " ++ toString r.errors ++ " warnings = " ++ toString r.warnings ++ "\n"

end Report

open Json (Datum)

def Position.datum (p : Position) : Datum :=
  .record [("file", .string p.file), ("line", .ofNat p.line.toNat),
    ("column", .ofNat p.column.toNat)]

def Diagnostic.datum (d : Diagnostic) : Datum :=
  .record [("severity", .string d.severity.text), ("code", .string d.code.text),
    ("position", d.position.datum), ("message", .string d.message)]

namespace Report

def datum (r : Report) : Datum :=
  .record ([("file", .string r.file), ("succeeded", .bool r.succeeded),
    ("errors", .ofNat r.errors), ("warnings", .ofNat r.warnings),
    ("diagnostics", .sequence (r.diagnostics.map Diagnostic.datum))]
    -- without a dump there is no field for it, not even an empty one
    ++ (match r.symbols with
      | some text => [("symbols", .string text)]
      | none => []))

/-- The report for tools. As far as the writer goes it may fail; that it never does is due to the
kind of data that a report is. -/
def json (r : Report) : Except Json.WriteError String := do
  return (← r.datum.write) ++ "\n"

def render (r : Report) : MessageFormat → Except Json.WriteError String
  | .human => .ok r.human
  | .json => r.json

end Report

end Semant
