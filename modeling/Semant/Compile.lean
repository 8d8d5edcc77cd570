import Semant.Analysis
import Semant.Document.Lower
import Semant.Report

/-!
# Compiling a document

Loading, checking, dumping on request and reporting, in this order. The log of what was done is
part of the outcome even when the compilation fails.
-/

set_option autoImplicit false

namespace Semant

structure CompileOptions where
  format : MessageFormat := .human
  dumpSymbols : Bool := false
  deriving DecidableEq, Repr, Inhabited

/-- The stage at which a compilation broke off. A mistake in the program is none of these: it is a
diagnostic, and the compilation goes through. -/
inductive CompileError where
  | document (error : LoadError)
  | internal (error : InternalError)
  /-- The report could not be written. -/
  | report (error : Json.WriteError)
  deriving DecidableEq, Repr

def CompileError.message : CompileError → String
  | document error => "malformed document: " ++ error.message
  | internal error => "internal error: " ++ error.message
  | report error => "cannot write report: " ++ error.message

structure Compilation where
  output : String
  errors : Nat
  warnings : Nat
  deriving DecidableEq, Repr, Inhabited

def Compilation.succeeded (c : Compilation) : Bool := c.errors = 0

def Analysis.report (a : Analysis) (symbols : Option String) : Report :=
  { file := a.program.file
    diagnostics := a.diagnostics
    errors := a.errorCount
    warnings := a.warningCount
    symbols }

/-- The dump comes after the analysis in the same pass, over the scopes that the analysis left in
the store. -/
def Program.report (p : Program) (dumpSymbols : Bool) : PassM Report := do
  let a ← Pass.analyze p
  let symbols ← if dumpSymbols then some <$> Pass.dump p else pure none
  return a.report symbols

/-- Every stage that fails ends the compilation, and the log holds what was done until then. Only a
compilation that went through is logged as such. -/
def compile (text : String) (options : CompileOptions) :
    Except CompileError Compilation × Array LogEntry :=
  match Program.load text 0 with
  | .error e => (.error (.document e), #[])
  | .ok (program, _) =>
    match (program.report options.dumpSymbols).run (Pass.start .empty) with
    | .error e pass => (.error (.internal e), pass.log)
    | .ok report pass =>
      match report.render options.format with
      | .error e => (.error (.report e), pass.log)
      | .ok output =>
        (.ok { output, errors := report.errors, warnings := report.warnings },
          pass.log.push (.compiled program.file report.errors report.warnings))

end Semant
