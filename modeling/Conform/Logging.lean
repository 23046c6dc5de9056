import Conform.Text.CodePoint
import Conform.Settings.Basic

/-!
# Logging

Log records pass two thresholds: that of the logger they are written to, or of its nearest ancestor
that has one, and that of every handler they come to on their way up to the root, which may show them.
This file fixes how logging is configured and which records are shown.
-/

namespace Conform

/-! ## 1. Levels -/

/-- The names of levels. The first name of a level is the one that is shown. -/
def levelNames : List (String × Nat) :=
  [("CRITICAL", 50), ("FATAL", 50), ("ERROR", 40), ("WARNING", 30), ("WARN", 30), ("INFO", 20),
   ("DEBUG", 10), ("NOTSET", 0)]

/-- The switches of logging, all of which are on. A switch that is on counts as the level one. -/
def switchNames : List String :=
  ["raiseExceptions", "logThreads", "logMultiprocessing", "logProcesses"]

/-- The names of texts that logging keeps: the layout of a line. -/
def textNames : List String := ["BASIC_FORMAT"]

/-- The words that ask for a record instead of naming a level. -/
def recordWords : List String :=
  ["debug", "info", "warning", "warn", "error", "exception", "critical", "fatal", "log"]

/-- Why a name is none of a level. -/
inductive LevelFault where
  | unknown
  /-- It is the word for writing a record. -/
  | notALevel
  /-- It is the name of a text, which is no level itself. -/
  | textOnly
  deriving DecidableEq, Repr, Inhabited

/-- The level with a name. -/
def level? (name : String) : Except LevelFault Nat :=
  match levelNames.find? fun l => l.1 = name with
  | some l => .ok l.2
  | none =>
    if switchNames.contains name then .ok 1
    else if textNames.contains name then .error .textOnly
    else .error (if recordWords.contains name then .notALevel else .unknown)

/-- The name that is shown for a level. -/
def levelName (level : Nat) : String :=
  match levelNames.find? fun l => l.2 = level with
  | some l => l.1
  | none => "Level " ++ String.ofList (Nat.toDigits 10 level)

/-- The level of a verbosity. -/
def Verbosity.level : Verbosity → Nat
  | .debug => 10
  | .info => 20
  | .warning => 30
  | .error => 40

/-- The level of the settings: debugging if that is set, else the one that is given. -/
def Settings.level (s : Settings) : Nat :=
  if s.debug then Verbosity.debug.level else s.logLevel.level

/-! ## 2. Loggers -/

/-- What takes records from its level on. -/
structure Handler where
  level : Nat
  /-- Does it write to the error stream? -/
  shows : Bool := true
  deriving DecidableEq, Repr, Inhabited

/-- A logger that has been given a level or handlers. A level of zero is none. -/
structure Logger where
  name : String
  level : Nat
  handlers : List Handler := []
  deriving DecidableEq, Repr, Inhabited

/-- The loggers: the root and others under their dotted names. -/
structure Logging where
  root : Logger
  others : List Logger
  deriving DecidableEq, Repr, Inhabited

/-- A record of the log. -/
structure LogRecord where
  logger : String
  level : Nat
  message : Text
  deriving DecidableEq, Repr, Inhabited

namespace Logging

/-- The logger of the whole library. -/
def packageName : String := "data_validator"

/-- Loggers of others that say too much. -/
def noisyNames : List String := ["markdown_it", "asyncio"]

/-- The loggers before anything is configured. -/
def initial : Logging :=
  ⟨⟨"root", 30, []⟩, (packageName :: noisyNames).map fun n => ⟨n, 0, []⟩⟩

/-- The logger with a name. -/
def logger? (l : Logging) (name : String) : Option Logger :=
  l.others.find? fun x => x.name = name

/-- Changes the logger with a name. -/
def modify (l : Logging) (name : String) (f : Logger → Logger) : Logging :=
  { l with others := l.others.map fun x => if x.name = name then f x else x }

/-! ## 3. Configuring -/

/-- The level that is in force: the one asked for, else the one of the settings. An empty name asks
    for nothing. -/
def effective (s : Settings) (asked : Option String) : Except LevelFault Nat :=
  match asked with
  | none => .ok s.level
  | some name => if name.isEmpty then .ok s.level else level? name

/-- Takes all handlers from the noisy loggers and lets only warnings of theirs through. -/
def quiet (l : Logging) : Logging :=
  noisyNames.foldl (fun l n => l.modify n fun x => { x with level := 30, handlers := [] }) l

/-- Sets everything up for a level: the root lets everything from debugging on through to one
    handler at the level, and so does the library from the level on. -/
def atLevel (l : Logging) (level : Nat) : Logging :=
  let l := { l with root := { l.root with level := 10, handlers := [{ level }] } }
  (l.modify packageName fun x => { x with level }).quiet

/-- Configures logging. -/
def configure (s : Settings) (asked : Option String) (l : Logging) : Except LevelFault Logging := do
  return l.atLevel (← effective s asked)

/-! ## 4. Records -/

/-- What is in front of the last point of a dotted name, if it is not empty. -/
def parent? (name : List Char) : Option (List Char) :=
  match name.reverse.dropWhile (· != '.') with
  | [] => none
  | _ :: front => if front.isEmpty then none else some front.reverse

/-- The names above a dotted name, the nearest first. The number bounds them. -/
def ancestorsFrom : Nat → List Char → List String
  | 0, _ => []
  | n + 1, name =>
    match parent? name with
    | none => []
    | some p => String.ofList p :: ancestorsFrom n p.dropLast

/-- The names above a dotted name, the nearest first. -/
def ancestors (name : String) : List String :=
  ancestorsFrom name.length name.toList

/-- The level from which a logger lets records through: its own, or that of the nearest ancestor
    that has one, or that of the root. -/
def threshold (l : Logging) (name : String) : Nat :=
  let own := (name :: ancestors name).filterMap fun n =>
    (l.logger? n).bind fun x => if x.level = 0 then none else some x.level
  own.head?.getD l.root.level

/-- Is the name that of the root? -/
def isRoot (name : String) : Bool :=
  name.isEmpty || name = "root"

/-- Does its logger let a record through? Records without a level are never let through. -/
def passes (l : Logging) (r : LogRecord) : Bool :=
  let needed := if isRoot r.logger then l.root.level else l.threshold r.logger
  r.level != 0 && needed ≤ r.level

/-- The handlers that a record comes to before those of the root: those of its logger and of the
    loggers above it. -/
def handlersOnWay (l : Logging) (name : String) : List Handler :=
  if isRoot name then []
  else (name :: ancestors name).flatMap fun n => ((l.logger? n).map (·.handlers)).getD []

/-- How many of some handlers show a record. -/
def countShown (handlers : List Handler) (r : LogRecord) : Nat :=
  handlers.countP fun h => h.shows && h.level ≤ r.level

/-- How often a record is shown: once by every handler on its way and every handler of the root that
    its level reaches, if its logger lets it through. -/
def timesShown (l : Logging) (r : LogRecord) : Nat :=
  if l.passes r then countShown (l.handlersOnWay r.logger ++ l.root.handlers) r else 0

/-- The line of a record. -/
def line (r : LogRecord) : Text :=
  let name := if isRoot r.logger then "root" else r.logger
  Text.ofString (levelName r.level ++ " | " ++ name ++ " | ") ++ r.message ++ Text.ofChars ['\n']

/-- The records that are shown, in their order. -/
def shown (l : Logging) (records : List LogRecord) : List LogRecord :=
  records.flatMap fun r => List.replicate (l.timesShown r) r

/-- What the handlers write to the error stream. -/
def written (l : Logging) (records : List LogRecord) : Text :=
  (l.shown records).flatMap line

end Logging

end Conform
