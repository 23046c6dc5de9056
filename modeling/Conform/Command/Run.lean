import Conform.Command.Console
import Conform.Command.Folder
import Conform.Command.Request
import Conform.Logging
import Conform.Schema.Compile
import Conform.Text.Lines
import Conform.Validation

/-!
# A run of the command

The command compiles a schema file and validates files against it, one after the other. This file
fixes what a run prints and logs and how it ends. A file that is not valid is reported and the next
one is looked at; a file that cannot be read, or that crashes the run, ends it.
-/

namespace Conform.Command

/-! ## 1. Outcomes -/

/-- Why a run crashes. -/
inductive Crash where
  | fault (f : Fault)
  /-- The bytes of a file are not UTF-8. -/
  | notText
  /-- A message holds a lone surrogate. -/
  | unprintable
  deriving DecidableEq, Repr, Inhabited

/-- How a run ends. -/
inductive Ending where
  | done (status : Nat)
  | crashed (c : Crash)
  deriving DecidableEq, Repr, Inhabited

/-- What a run prints and logs, and how it ends. -/
structure Outcome where
  output : List Char := []
  records : List LogRecord := []
  ending : Ending
  deriving DecidableEq, Repr, Inhabited

namespace Outcome

/-- The outcome with something printed and logged before it. -/
def after (o : Outcome) (output : List Char) (records : List LogRecord) : Outcome :=
  { o with output := output ++ o.output, records := records ++ o.records }

/-- The outcome of a run that crashes. -/
def crash (c : Crash) : Outcome :=
  { ending := .crashed c }

/-- The outcome of printing a message and going on. -/
def printing (message : Text) (next : Outcome) : Outcome :=
  match Console.print? message with
  | some shown => next.after shown []
  | none => crash .unprintable

/-- The outcome of a run that ends with a message. -/
def failing (message : Text) : Outcome :=
  printing message { ending := .done 1 }

end Outcome

/-! ## 2. Records of the log -/

/-- A record about schemas and collections. -/
def validationRecord (message : Text) : LogRecord :=
  ⟨"data_validator.schema.core", Verbosity.debug.level, message⟩

/-- A record about the run itself. -/
def runRecord (v : Verbosity) (message : Text) : LogRecord :=
  ⟨"data_validator.cli.main", v.level, message⟩

/-- A number as text. -/
def numberText (n : Nat) : Text :=
  Text.ofChars (decimalDigits n)

/-- The record of a schema that has been compiled. -/
def compiledRecord (s : Schema) : LogRecord :=
  validationRecord (Text.ofString "Compiled schema with " ++ numberText s.properties.length ++
    Text.ofString " properties (primary key: " ++ s.primaryKey.getD "None" ++ Text.ofString ")")

/-- The record of a collection that has been examined. -/
def examinedRecord (f : Schema.Findings) : LogRecord :=
  validationRecord (Text.ofString "Validated " ++ numberText f.count ++ Text.ofString " objects")

/-- The record of a file that is about to be validated. -/
def startedRecord (schema file : Path) : LogRecord :=
  runRecord .info (Text.ofString "Validating " ++ Text.ofChars file.shown ++
    Text.ofString " against " ++ Text.ofChars schema.shown)

/-- The record of a run in which files failed. -/
def failedRecord (failed total : Nat) : LogRecord :=
  runRecord .debug (numberText failed ++ Text.ofString " of " ++ numberText total ++
    Text.ofString " files failed validation")

/-! ## 3. One file -/

/-- What comes of a file. -/
inductive Verdict where
  | valid
  | invalid (message : Text)
  | unreadable (message : Text)
  | crashed (c : Crash)
  deriving DecidableEq, Repr, Inhabited

/-- What comes of validating, as far as the file is concerned. -/
def Verdict.of : Except Failure Unit → Verdict
  | .ok () => .valid
  | .error (.rejected r) => .invalid r.message
  | .error (.faulted f) => .crashed (.fault f)

/-- What comes of a text, and what is logged about it. -/
def judgeText (s : Schema) (text : List Char) : Verdict × List LogRecord :=
  match s.examine text with
  | .error f => (.of (.error f), [])
  | .ok findings => (.of findings.verdict, [examinedRecord findings])

/-- What comes of a file, and what is logged about it. -/
def judge (s : Schema) (read : Reader) (file : Path) : Verdict × List LogRecord :=
  match read file with
  | .error f => (.unreadable (Text.ofChars (f.message file)), [])
  | .ok bytes =>
    match fileText? bytes with
    | none => (.crashed .notText, [])
    | some text => judgeText s text

/-! ## 4. All files -/

/-- The end of a run in which some of the files failed. -/
def finish (failed total : Nat) : Outcome :=
  if failed = 0 then { ending := .done 0 }
  else { records := [failedRecord failed total], ending := .done 1 }

/-- The outcome of the remaining files, when some have failed so far. -/
def validateFiles (s : Schema) (read : Reader) (schema : Path) (total : Nat) :
    Nat → List Path → Outcome
  | failed, [] => finish failed total
  | failed, file :: rest =>
    let (verdict, logged) := judge s read file
    let next :=
      match verdict with
      | .valid => validateFiles s read schema total failed rest
      | .invalid message =>
        .printing message (validateFiles s read schema total (failed + 1) rest)
      | .unreadable message => .failing message
      | .crashed c => .crash c
    next.after [] (startedRecord schema file :: logged)

/-- The outcome of a schema file and the files to validate against it. -/
def validateAgainst (read : Reader) (schema : Path) (files : List Path) : Outcome :=
  match read schema with
  | .error f => .failing (Text.ofChars (f.message schema))
  | .ok bytes =>
    match fileText? bytes with
    | none => .crash .notText
    | some text =>
      match Schema.compile text with
      | .error (.rejected r) => .failing r.message
      | .error (.faulted f) => .crash (.fault f)
      | .ok s => (validateFiles s read schema files.length 0 files).after [] [compiledRecord s]

/-- The outcome of some paths: that of the schema, then those of the files. -/
def validatePaths (read : Reader) (paths : List (List Char)) : Outcome :=
  match paths.map Path.ofChars with
  | [] => .failing "No schema and input file specified"
  | [_] => .failing "Both a schema file and at least one input file are required"
  | schema :: files => validateAgainst read schema files

/-! ## 5. The command -/

/-- What the command answers. The records of an outcome are those that are shown. -/
inductive Response where
  | help
  | usageError
  | finished (o : Outcome)
  deriving DecidableEq, Repr, Inhabited

/-- The logging of a run: that of the settings, or everything if a run is verbose. -/
def logging (settings : Settings) (verbose : Bool) : Logging :=
  let start := Logging.initial.atLevel settings.level
  if verbose then start.atLevel Verbosity.debug.level else start

/-- What the command answers under some settings. -/
def run (settings : Settings) (read : Reader) (arguments : List (List Char)) : Response :=
  match Request.ofArguments? arguments with
  | none => .usageError
  | some .help => .help
  | some (.check verbose paths) =>
    let o := validatePaths read paths
    .finished { o with records := (logging settings verbose).shown o.records }

/-! ## 6. The settings file -/

/-- Why the command cannot start. -/
inductive StartFault where
  | settings
  /-- The settings file is not UTF-8. -/
  | notText
  /-- There is a settings file, but it cannot be read. -/
  | unreadable (f : ReadFault)
  deriving DecidableEq, Repr, Inhabited

/-- Where the settings file is. -/
def settingsPath : Path := ⟨0, [".env".toList]⟩

/-- The settings in an environment and in the settings file, if there is one. -/
def settings (environment : List (List Char × List Char)) (read : Reader) :
    Except StartFault Settings :=
  let load (file : Option (List Char)) : Except StartFault Settings :=
    match Settings.load? environment file with
    | some s => .ok s
    | none => .error .settings
  match read settingsPath with
  | .error f => if f.isMissing then load none else .error (.unreadable f)
  | .ok bytes =>
    match utf8? bytes with
    | none => .error .notText
    | some file => load (some file)

/-- What the command answers in an environment. -/
def launch (environment : List (List Char × List Char)) (read : Reader)
    (arguments : List (List Char)) : Except StartFault Response := do
  return run (← settings environment read) read arguments

end Conform.Command
