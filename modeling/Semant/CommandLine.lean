import Semant.Compile

/-!
# The command line

Two options and one optional file:

    --message-format human|json    how diagnostics are printed
    --dump-symbols                 also print all scopes and their symbols

An argument that starts with two hyphens is an option. Its name ends at the first `=`, and what
follows is its value; further hyphens in front of the name and further `=` in front of the value
are dropped. An option that needs a value and has none takes the next argument, unless that looks
like an option itself. A flag has no use for a value and ignores it. There are no options of one
letter. An argument of two hyphens ends the options, and everything behind it is a file name.

Options are settled before any input is read.
-/

set_option autoImplicit false

namespace Semant.CommandLine

/-- What was found on the command line so far. `none` and `false` are kept apart from the defaults
of `CompileOptions`, since an option may be given once even when it asks for the default. -/
structure Given where
  format : Option MessageFormat := none
  dumpSymbols : Bool := false
  path : Option String := none
  deriving DecidableEq, Repr, Inhabited

inductive OptionError where
  | unknown (argument : String)
  | missingValue (option : String)
  | invalidValue (option value : String)
  | repeated (argument : String)
  deriving DecidableEq, Repr

def OptionError.message : OptionError → String
  | unknown argument => "'" ++ argument ++ "' was not expected"
  | missingValue option => "'--" ++ option ++ "' needs a value"
  | invalidValue option value => "'" ++ value ++ "' is no value of '--" ++ option ++ "'"
  | repeated argument => "'" ++ argument ++ "' cannot be used again"

/-- A single hyphen does not look like an option: it has no name behind it and is taken for a file.
-/
def looksLikeOption (argument : String) : Bool :=
  match argument.toList with
  | '-' :: _ :: _ => true
  | _ => false

def splitOption (argument : String) : String × Option String :=
  let text := argument.toList.dropWhile (· = '-')
  let name := String.ofList (text.takeWhile (· ≠ '='))
  match text.dropWhile (· ≠ '=') with
  | [] => (name, none)
  | value => (name, some (String.ofList (value.dropWhile (· = '='))))

namespace Given

def addPath (given : Given) (argument : String) : Except OptionError Given :=
  match given.path with
  | none => .ok { given with path := some argument }
  | some _ => .error (.repeated argument)

def addDump (given : Given) : Except OptionError Given :=
  if given.dumpSymbols then .error (.repeated "dump-symbols")
  else .ok { given with dumpSymbols := true }

/-- A second format is refused before its name is looked at, so a repeated option is reported even
where its value is no format. -/
def addFormat (given : Given) (value : String) : Except OptionError Given :=
  match given.format, MessageFormat.ofText? value with
  | some _, _ => .error (.repeated "message-format")
  | none, some format => .ok { given with format := some format }
  | none, none => .error (.invalidValue "message-format" value)

def addAll (given : Given) : List String → Except OptionError Given
  | [] => .ok given
  | "--" :: rest => rest.foldlM addPath given
  | argument :: rest =>
    if looksLikeOption argument = false then do
      let given ← given.addPath argument
      given.addAll rest
    -- one hyphen would make an option of one letter, and there are none
    else if argument.startsWith "--" = false then
      .error (.unknown argument)
    else
      match splitOption argument, rest with
      | ("dump-symbols", _), rest => do
        let given ← given.addDump
        given.addAll rest
      | ("message-format", some value), rest => do
        let given ← given.addFormat value
        given.addAll rest
      | ("message-format", none), [] => .error (.missingValue "message-format")
      | ("message-format", none), value :: rest =>
        if looksLikeOption value then .error (.missingValue "message-format")
        else do
          let given ← given.addFormat value
          given.addAll rest
      | _, _ => .error (.unknown argument)

end Given

structure Command where
  options : CompileOptions := {}
  /-- The file to read. Without one, standard input is read. -/
  path : Option String := none
  deriving DecidableEq, Repr, Inhabited

def Command.ofArguments (arguments : List String) : Except OptionError Command := do
  let given ← ({} : Given).addAll arguments
  return {
    options := { format := given.format.getD .human, dumpSymbols := given.dumpSymbols }
    path := given.path }

inductive InputError where
  | notFound
  /-- The content is not encoded in UTF-8. -/
  | invalidData
  deriving DecidableEq, Repr

def InputError.message : InputError → String
  | notFound => "the file cannot be read"
  | invalidData => "the content is not valid UTF-8"

def decode (content : Option ByteArray) : Except InputError String :=
  match content with
  | none => .error .notFound
  | some bytes =>
    match String.fromUTF8? bytes with
    | none => .error .invalidData
    | some text => .ok text

inductive CommandError where
  | option (error : OptionError)
  | input (error : InputError)
  | compile (error : CompileError)
  deriving DecidableEq, Repr

def CommandError.message : CommandError → String
  | option error => "invalid option: " ++ error.message
  | input error => error.message
  | compile error => error.message

def Command.compile (command : Command) (content : Option ByteArray) :
    Except CommandError Compilation := do
  let text ← (decode content).mapError .input
  (Semant.compile text command.options).1.mapError .compile

/-- Runs the arguments on a file system in which `read` finds the content of files, or that of
standard input if no file is named. -/
def run (arguments : List String) (read : Option String → Option ByteArray) :
    Except CommandError Compilation := do
  let command ← (Command.ofArguments arguments).mapError .option
  command.compile (read command.path)

structure Exit where
  status : UInt8
  output : String
  complaint : String
  deriving DecidableEq, Repr, Inhabited

/-- The exit of the program. A tree whose layout needs columns beyond 32 bits aborts it while the
document is being loaded, so that this error of loading has a status of its own and is not announced
as fatal. -/
def Exit.of : Except CommandError Compilation → Exit
  | .ok compilation => ⟨if compilation.succeeded then 0 else 1, compilation.output, ""⟩
  | .error (.compile (.document (.build .columnOverflow))) =>
    ⟨101, "", BuildError.columnOverflow.message ++ "\n"⟩
  | .error e => ⟨2, "", "fatal error: " ++ e.message ++ "\n"⟩

def Exit.isFatal (e : Exit) : Bool := e.complaint.startsWith "fatal error: "

end Semant.CommandLine
