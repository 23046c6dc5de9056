import Conform.Text.Lines
import Conform.Settings.Bindings

/-!
# Settings

What can be set from outside: whether to debug, and from which level on the log is shown. A setting
is taken from the environment, else from the settings file, else from its default. Names have a
prefix and are compared without regard to case.
-/

namespace Conform

/-- The levels from which the log can be shown. -/
inductive Verbosity where
  | debug
  | info
  | warning
  | error
  deriving DecidableEq, Repr, Inhabited

/-- The name of a level. -/
def Verbosity.name : Verbosity → String
  | .debug => "DEBUG"
  | .info => "INFO"
  | .warning => "WARNING"
  | .error => "ERROR"

/-- The settings. -/
structure Settings where
  debug : Bool := false
  logLevel : Verbosity := .warning
  deriving DecidableEq, Repr, Inhabited

namespace Settings

/-! ## 1. Values -/

/-- The words for yes, in lower case. -/
def yesWords : List String := ["1", "true", "yes", "on", "y", "t"]

/-- The words for no, in lower case. -/
def noWords : List String := ["0", "false", "no", "off", "n", "f"]

/-- The truth value of a word in any case. -/
def flag? (cs : List Char) : Option Bool :=
  let w := String.ofList (cs.map Char.toLower)
  if yesWords.contains w then some true
  else if noWords.contains w then some false
  else none

/-- The level with a name. -/
def verbosity? (cs : List Char) : Option Verbosity :=
  [Verbosity.debug, .info, .warning, .error].find? fun v => v.name.toList = cs

/-! ## 2. Sources -/

/-- What the names of all settings start with, in lower case. -/
def front : List Char := "data_validator_".toList

/-- The value of a setting among some variables: the last one with its name that is bound. -/
def among (known : List Binding) (name : String) : Option (List Char) :=
  ((known.reverse.find? fun b => b.1.map Char.toLower = front ++ name.toList).bind (·.2))

/-- The value of a setting: from the environment, else from the file. -/
def chosen (environment file : List Binding) (name : String) : Option (List Char) :=
  (among environment name).or (among file name)

/-- A setting that has a default and may be set. There is no result for a value that is none. -/
def setting? {α : Type} (read? : List Char → Option α) (default : α) :
    Option (List Char) → Option α
  | none => some default
  | some cs => read? cs

/-- The settings in an environment and a settings file, if there is one. -/
def load? (environment : List (List Char × List Char)) (file : Option (List Char)) :
    Option Settings := do
  let environment : List Binding := environment.map fun v => (v.1, some v.2)
  let file := (file.map fun f => fileBindings environment (plainLines f)).getD []
  let debug ← setting? flag? false (chosen environment file "debug")
  let logLevel ← setting? verbosity? .warning (chosen environment file "log_level")
  some { debug, logLevel }

end Settings

end Conform
