import Mathlib.Data.List.Forall2
import Conform.Settings.Basic

/-!
# Values in force

The value of a setting that is in force is that of the environment, else that of the settings file
with its variables replaced. Settings load exactly if every value in force is accepted
(`exists_load?_iff`). The settings file may name variables of the environment, so environments that
differ in nothing but accepted values (`DifferInValues`) need not have accepted values in force:
they have for the settings that they set themselves, and for the others the file decides
(`DifferInValues.interchangeable`).
-/

namespace Conform

/-- The settings. -/
inductive Setting where
  | debug
  | logLevel
  deriving DecidableEq, Repr, Inhabited

/-- The name of a setting behind the prefix. -/
def Setting.name : Setting → String
  | .debug => "debug"
  | .logLevel => "log_level"

/-- Is a text a value of the setting? -/
def Setting.accepts : Setting → List Char → Bool
  | .debug, cs => (Settings.flag? cs).isSome
  | .logLevel, cs => (Settings.verbosity? cs).isSome

namespace Settings

/-! ## 1. Loading -/

/-- The variables of an environment as bindings. -/
def bindings (environment : List (List Char × List Char)) : List Binding :=
  environment.map fun v => (v.1, some v.2)

/-- The variables that a settings file, if there is one, binds in an environment. -/
def fromFile (environment : List (List Char × List Char)) (file : Option (List Char)) :
    List Binding :=
  (file.map fun f => fileBindings (bindings environment) (plainLines f)).getD []

/-- The value of a setting that is in force. -/
def inForce (environment : List (List Char × List Char)) (file : Option (List Char))
    (setting : Setting) : Option (List Char) :=
  chosen (bindings environment) (fromFile environment file) setting.name

/-- A setting takes its default, or a value that is accepted. -/
theorem exists_setting?_iff {α : Type} (read? : List Char → Option α) (default : α)
    (value : Option (List Char)) :
    (∃ a, setting? read? default value = some a) ↔ ∀ cs ∈ value, (read? cs).isSome := by
  cases value with
  | none => simp [setting?]
  | some cs => simp [setting?, Option.isSome_iff_exists]

/-- Settings load exactly if every value in force is accepted. -/
theorem exists_load?_iff {environment : List (List Char × List Char)}
    {file : Option (List Char)} :
    (∃ s, load? environment file = some s) ↔
      ∀ setting : Setting, ∀ cs ∈ inForce environment file setting, setting.accepts cs := by
  have hload : load? environment file =
      (setting? flag? false (inForce environment file .debug)).bind fun debug =>
        (setting? verbosity? .warning (inForce environment file .logLevel)).bind fun logLevel =>
          some { debug, logLevel } := rfl
  have hdebug := exists_setting?_iff flag? false (inForce environment file .debug)
  have hlevel := exists_setting?_iff verbosity? .warning (inForce environment file .logLevel)
  rw [hload]
  constructor
  · rintro ⟨s, hs⟩
    obtain ⟨debug, hd, hs⟩ := Option.bind_eq_some_iff.mp hs
    obtain ⟨logLevel, hl, -⟩ := Option.bind_eq_some_iff.mp hs
    intro setting
    cases setting with
    | debug => exact hdebug.mp ⟨debug, hd⟩
    | logLevel => exact hlevel.mp ⟨logLevel, hl⟩
  · intro h
    obtain ⟨debug, hd⟩ := hdebug.mpr (h .debug)
    obtain ⟨logLevel, hl⟩ := hlevel.mpr (h .logLevel)
    exact ⟨⟨debug, logLevel⟩, by rw [hd, hl]; rfl⟩

/-! ## 2. Environments that load alike -/

/-- Two values, perhaps absent, that are the same, or of which a setting accepts both. -/
def SameOrAccepted (setting : Setting) (value value' : Option (List Char)) : Prop :=
  value = value' ∨ (∀ cs ∈ value, setting.accepts cs) ∧ ∀ cs ∈ value', setting.accepts cs

/-- Two environments under which the values in force differ at most in accepted ones. -/
def Interchangeable (environment environment' : List (List Char × List Char))
    (file : Option (List Char)) : Prop :=
  ∀ setting, SameOrAccepted setting (inForce environment file setting)
    (inForce environment' file setting)

section Interchangeable

variable {environment environment' : List (List Char × List Char)} {file : Option (List Char)}

theorem SameOrAccepted.accepts_iff {setting : Setting} {value value' : Option (List Char)}
    (h : SameOrAccepted setting value value') :
    (∀ cs ∈ value, setting.accepts cs) ↔ ∀ cs ∈ value', setting.accepts cs := by
  rcases h with rfl | ⟨hvalue, hvalue'⟩
  · rfl
  · exact iff_of_true hvalue hvalue'

/-- Under interchangeable environments settings load, or they load under neither. -/
theorem Interchangeable.exists_load?_iff (h : Interchangeable environment environment' file) :
    (∃ s, load? environment file = some s) ↔ ∃ s, load? environment' file = some s := by
  rw [Settings.exists_load?_iff, Settings.exists_load?_iff]
  exact forall_congr' fun setting => (h setting).accepts_iff

/-! ## 3. Environments that differ in values -/

/-- Does a variable set a setting? -/
def sets (setting : Setting) (v : List Char × List Char) : Bool :=
  v.1.map Char.toLower = front ++ setting.name.toList

/-- Two variables that are the same, or that set one setting to accepted values. -/
def Differs (v v' : List Char × List Char) : Prop :=
  v = v' ∨ v.1 = v'.1 ∧ ∃ setting : Setting,
    sets setting v ∧ setting.accepts v.2 ∧ setting.accepts v'.2

/-- Two environments that differ at most in accepted values of settings. -/
def DifferInValues : List (List Char × List Char) → List (List Char × List Char) → Prop :=
  List.Forall₂ Differs

theorem Setting.name_injective {setting setting' : Setting} (h : setting.name = setting'.name) :
    setting = setting' := by
  revert h
  cases setting <;> cases setting' <;> decide

theorem Differs.sets_eq {v v' : List Char × List Char} (h : Differs v v') (setting : Setting) :
    sets setting v = sets setting v' := by
  rcases h with rfl | ⟨hname, -⟩
  · rfl
  · rw [sets, sets, hname]

theorem Differs.sameOrAccepted {v v' : List Char × List Char} (h : Differs v v')
    {setting : Setting} (hsets : sets setting v) :
    SameOrAccepted setting (some v.2) (some v'.2) := by
  rcases h with rfl | ⟨-, other, hother, hv, hv'⟩
  · exact .inl rfl
  · have hnames := (of_decide_eq_true hsets).symm.trans (of_decide_eq_true hother)
    have hsame : setting = other :=
      Setting.name_injective (String.toList_inj.mp (List.append_cancel_left hnames))
    subst hsame
    exact .inr ⟨by simpa using hv, by simpa using hv'⟩

theorem among_bindings (environment : List (List Char × List Char)) (setting : Setting) :
    among (bindings environment) setting.name =
      (environment.reverse.find? (sets setting)).map (·.2) := by
  rw [among, bindings, ← List.map_reverse, List.find?_map, Option.bind_map, Option.map_eq_bind]
  rfl

/-- Such environments set the same settings, to the same or to accepted values. -/
theorem find?_sets (h : DifferInValues environment environment') (setting : Setting) :
    (environment.find? (sets setting) = none ∧ environment'.find? (sets setting) = none) ∨
      ∃ v v', environment.find? (sets setting) = some v ∧
        environment'.find? (sets setting) = some v' ∧
        SameOrAccepted setting (some v.2) (some v'.2) := by
  induction h with
  | nil => exact .inl ⟨rfl, rfl⟩
  | @cons v v' environment environment' hv _ ih =>
    rw [List.find?_cons, List.find?_cons, ← hv.sets_eq setting]
    cases hsets : sets setting v with
    | true => exact .inr ⟨v, v', rfl, rfl, hv.sameOrAccepted hsets⟩
    | false => exact ih

/-- For the settings that the environments leave to the file it is the file that decides, since it
    may name variables of the environment. -/
theorem DifferInValues.interchangeable (h : DifferInValues environment environment')
    (hfile : ∀ setting : Setting, among (bindings environment) setting.name = none →
      SameOrAccepted setting (among (fromFile environment file) setting.name)
        (among (fromFile environment' file) setting.name)) :
    Interchangeable environment environment' file := by
  intro setting
  -- The last variable with a name counts, so both environments are searched from their ends.
  have hfound := find?_sets (List.forall₂_reverse_iff.mpr h) setting
  rw [inForce, inForce, chosen, chosen, among_bindings, among_bindings]
  rcases hfound with ⟨hnone, hnone'⟩ | ⟨v, v', hv, hv', hsame⟩
  · rw [hnone, hnone']
    exact hfile setting (by rw [among_bindings, hnone]; rfl)
  · rw [hv, hv']
    exact hsame

end Interchangeable

end Settings

end Conform
