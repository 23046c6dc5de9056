/-!
# Requests

What the arguments of the command ask for. Switches may stand between the paths, short ones may be
put together behind one dash, and two dashes alone end the switches. A single dash is a path.
-/

namespace Conform.Command

/-- What a switch asks for. -/
inductive Switch where
  | verbose
  | help
  deriving DecidableEq, Repr, Inhabited

namespace Switch

/-- The switch with a letter. -/
def ofLetter? (c : Char) : Option Switch :=
  if c = 'v' then some .verbose else if c = 'h' then some .help else none

/-- The switch with a word. -/
def ofWord? (word : List Char) : Option Switch :=
  if word = "verbose".toList then some .verbose
  else if word = "help".toList then some .help
  else none

end Switch

/-- An argument: a path, some switches, or a switch that is not known. -/
inductive Argument where
  | path (p : List Char)
  | switches (s : List Switch)
  | unknown
  deriving DecidableEq, Repr, Inhabited

/-- What an argument is. -/
def Argument.ofChars : List Char → Argument
  | '-' :: '-' :: word =>
    match Switch.ofWord? word with
    | some s => .switches [s]
    | none => .unknown
  | '-' :: c :: cs =>
    match (c :: cs).mapM Switch.ofLetter? with
    | some s => .switches s
    | none => .unknown
  | p => .path p

/-- The switches and the paths of some arguments, if every switch is known. -/
def readArguments : List (List Char) → Option (List Switch × List (List Char))
  | [] => some ([], [])
  | a :: rest =>
    if a = ['-', '-'] then some ([], rest)
    else
      match Argument.ofChars a, readArguments rest with
      | .path p, some (switches, paths) => some (switches, p :: paths)
      | .switches s, some (switches, paths) => some (s ++ switches, paths)
      | _, _ => none

/-- What the command is to do. -/
inductive Request where
  | help
  | check (verbose : Bool) (paths : List (List Char))
  deriving DecidableEq, Repr, Inhabited

/-- Can a text name a path? A zero ends every name, so none can be inside. -/
def isPathName (p : List Char) : Bool :=
  !p.contains '\x00'

/-- The request of some arguments, if every switch is known and every path is one. Help is given
    whatever else is asked for. -/
def Request.ofArguments? (arguments : List (List Char)) : Option Request :=
  match readArguments arguments with
  | none => none
  | some (switches, paths) =>
    if switches.contains .help then some .help
    else if paths.all isPathName then some (.check (switches.contains .verbose) paths)
    else none

end Conform.Command
