import Conform.Command.Run

/-!
# The command

The outer layer of the command: it collects the environment and the files that a run may ask for,
calls `Command.launch`, and prints what that answers.
-/

namespace Conform.Main

open Command

/-! ## 1. Gathering -/

/-- The assignments of an environment block, each of which ends with a zero. -/
def assignments (block : String) : List (List Char × List Char) :=
  (block.splitOn "\x00").filterMap fun line =>
    match line.toList.span (· != '=') with
    | (name, _ :: value) => some (name, value)
    | _ => none

/-- The environment of this process. -/
def environment : IO (List (List Char × List Char)) := do
  try
    let bytes ← IO.FS.readBinFile "/proc/self/environ"
    return assignments ((String.fromUTF8? bytes).getD "")
  catch _ => return []

/-- Why reading a file failed. -/
def readFault : IO.Error → ReadFault
  | .noFileOrDirectory .. => .absent
  | .inappropriateType _ code _ => if code = 20 || code = -20 then .throughFile else .directory
  | .invalidArgument .. => .longName
  | .permissionDenied .. => .other 13 "Permission denied"
  | _ => .other 5 "Input/output error"

/-- Reads a file. -/
def readFile (path : Path) : IO (Except ReadFault (List UInt8)) := do
  try
    return .ok (← IO.FS.readBinFile (String.ofList path.shown)).toList
  catch e => return .error (readFault e)

/-- A reader of the files at some paths. -/
def reader (paths : List Path) : IO Reader := do
  let contents ← paths.mapM fun p => return (p, ← readFile p)
  return fun p => (contents.lookup p).getD (.error .absent)

/-! ## 2. Answering -/

/-- The usage of the command. -/
def usage : String :=
  "Usage: data-validator [-v|--verbose] [-h|--help] SCHEMA FILE..."

/-- Shows an outcome. -/
def display (o : Outcome) : IO UInt32 := do
  for record in o.records do
    IO.eprint (Text.toString (Logging.line record))
  IO.print (String.ofList o.output)
  match o.ending with
  | .done status => return status.toUInt32
  | .crashed c =>
    IO.eprintln (reprStr c)
    return 1

/-- Shows what the command answers. -/
def answer : Except StartFault Response → IO UInt32
  | .ok .help => do
    IO.println usage
    return 0
  | .ok .usageError => do
    IO.eprintln usage
    return 2
  | .ok (.finished o) => display o
  | .error f => do
    IO.eprintln (reprStr f)
    return 1

end Conform.Main

/-- Runs the command. -/
def main (arguments : List String) : IO UInt32 := do
  let arguments := arguments.map String.toList
  let paths := Conform.Command.settingsPath :: arguments.map Conform.Command.Path.ofChars
  let read ← Conform.Main.reader paths
  let environment ← Conform.Main.environment
  Conform.Main.answer (Conform.Command.launch environment read arguments)
