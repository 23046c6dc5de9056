import Conform.Proofs.Command.Runs
import Conform.Proofs.Logging
import Conform.Proofs.Settings

/-!
# Verbosity

The switch for verbosity and the settings have no influence but on the log. Whatever a request
prints, logs and ends with is settled by its paths (`answer`), and of the log a run shows the records
from one level on (`run_eq_showing`). So runs of one command in environments with interchangeable
settings look the same, and the log of each is what a verbose run shows from its level on
(`verbosity_never_matters`). A settings file that names one of the variables can make a run fail to
start for an accepted value of that variable (`interpolation_decides_start`).
-/

namespace Conform.Command

/-! ## 1. The switch -/

/-- The two forms of the switch for verbosity. -/
def verboseWords : List (List Char) := ["-v".toList, "--verbose".toList]

/-- The arguments as they are, or with the switch for verbosity somewhere in front of the two dashes
    that end the switches. -/
inductive Switched (base : List (List Char)) : List (List Char) → Prop where
  | without : Switched base base
  | verbose {front back : List (List Char)} {word : List Char} (hbase : base = front ++ back)
      (hfront : ['-', '-'] ∉ front) (hword : word ∈ verboseWords) :
      Switched base (front ++ word :: back)

/-- Do some arguments ask for verbosity? -/
def isVerbose (arguments : List (List Char)) : Bool :=
  ((readArguments arguments).map fun r => r.1.contains .verbose).getD false

/-- Arguments are read one part after the other, as long as the switches do not end. -/
theorem readArguments_append {front : List (List Char)} (h : ['-', '-'] ∉ front)
    (back : List (List Char)) :
    readArguments (front ++ back) = (readArguments front).bind fun r =>
      (readArguments back).map fun r' => (r.1 ++ r'.1, r.2 ++ r'.2) := by
  induction front with
  | nil =>
    rw [List.nil_append, readArguments]
    simp
  | cons a front ih =>
    have ha : a ≠ ['-', '-'] := fun heq => h (heq ▸ List.mem_cons_self)
    rw [List.cons_append, readArguments, readArguments, if_neg ha, if_neg ha,
      ih fun hmem => h (List.mem_cons_of_mem a hmem)]
    cases Argument.ofChars a <;> cases readArguments front <;> cases readArguments back <;> simp

theorem readArguments_verbose {word : List Char} (h : word ∈ verboseWords)
    (back : List (List Char)) :
    readArguments (word :: back) =
      (readArguments back).map fun r => (.verbose :: r.1, r.2) := by
  have hends : word ≠ ['-', '-'] := by
    rintro rfl
    revert h
    decide
  have hswitch : Argument.ofChars word = .switches [.verbose] := by
    rcases List.mem_pair.mp h with rfl | rfl <;> decide
  rw [readArguments, if_neg hends, hswitch]
  cases readArguments back <;> rfl

/-- What a request is apart from its verbosity. -/
def Request.quiet : Request → Request
  | .help => .help
  | .check _ paths => .check false paths

/-- The switch changes nothing but the verbosity of a request. -/
theorem Switched.request {base line : List (List Char)} (h : Switched base line) :
    (Request.ofArguments? line).map Request.quiet =
      (Request.ofArguments? base).map Request.quiet := by
  cases h with
  | without => rfl
  | @verbose front back word hbase hfront hword =>
    subst hbase
    rw [Request.ofArguments?, Request.ofArguments?, readArguments_append hfront,
      readArguments_append hfront, readArguments_verbose hword]
    cases readArguments front with
    | none => rfl
    | some r =>
      cases readArguments back with
      | none => rfl
      | some r' =>
        obtain ⟨switches, paths⟩ := r
        obtain ⟨switches', paths'⟩ := r'
        have hhelp : (switches ++ .verbose :: switches').contains .help =
            (switches ++ switches').contains .help := by simp
        simp only [Option.bind_some, Option.map_some, hhelp]
        split
        · rfl
        · split <;> rfl

/-- Arguments with the switch ask for verbosity, if every switch is known. -/
theorem isVerbose_switched {front back : List (List Char)} {word : List Char}
    (hfront : ['-', '-'] ∉ front) (hword : word ∈ verboseWords)
    (h : Request.ofArguments? (front ++ back) ≠ none) :
    isVerbose (front ++ word :: back) = true := by
  rw [isVerbose, readArguments_append hfront, readArguments_verbose hword]
  rw [Request.ofArguments?, readArguments_append hfront] at h
  cases hf : readArguments front with
  | none => simp [hf] at h
  | some r =>
    cases hb : readArguments back with
    | none => simp [hf, hb] at h
    | some r' => simp

/-! ## 2. The records of a run -/

/-- An outcome that logs nothing but records of the library. -/
def Outcome.Own (o : Outcome) : Prop :=
  ∀ r ∈ o.records, Logging.initial.IsOwn r

theorem isOwn_validationRecord (message : Text) :
    Logging.initial.IsOwn (validationRecord message) := by
  have hbelongs : Logging.initial.Belongs "data_validator.schema.core" := by decide
  exact ⟨hbelongs, Nat.zero_lt_succ _⟩

theorem isOwn_runRecord (v : Verbosity) (message : Text) :
    Logging.initial.IsOwn (runRecord v message) := by
  have hbelongs : Logging.initial.Belongs "data_validator.cli.main" := by decide
  refine ⟨hbelongs, ?_⟩
  cases v <;> exact Nat.zero_lt_succ _

namespace Outcome

theorem Own.after {o : Outcome} (h : o.Own) {records : List LogRecord}
    (hrecords : ∀ r ∈ records, Logging.initial.IsOwn r) (output : List Char) :
    (o.after output records).Own :=
  List.forall_mem_append.mpr ⟨hrecords, h⟩

theorem own_of_no_records {o : Outcome} (h : o.records = []) : o.Own := by
  rw [Own, h]
  exact List.forall_mem_nil _

theorem Own.printing {o : Outcome} (h : o.Own) (message : Text) : (printing message o).Own := by
  unfold Outcome.printing
  cases Console.print? message with
  | none => exact own_of_no_records rfl
  | some shown => exact h.after (List.forall_mem_nil _) shown

theorem own_failing (message : Text) : (failing message).Own :=
  (own_of_no_records rfl).printing message

end Outcome

section Files

variable {s : Schema} {read : Reader} {schema : Path} {total : Nat}

theorem own_judgeText (text : List Char) :
    ∀ r ∈ (judgeText s text).2, Logging.initial.IsOwn r := by
  unfold judgeText
  split
  · exact List.forall_mem_nil _
  · exact List.forall_mem_singleton.mpr (isOwn_validationRecord _)

theorem own_judge (file : Path) : ∀ r ∈ (judge s read file).2, Logging.initial.IsOwn r := by
  unfold judge
  split
  · exact List.forall_mem_nil _
  · split
    · exact List.forall_mem_nil _
    · exact own_judgeText _

theorem own_finish (failed : Nat) : (finish failed total).Own := by
  unfold finish
  split
  · exact Outcome.own_of_no_records rfl
  · exact List.forall_mem_singleton.mpr (isOwn_runRecord _ _)

theorem own_validateFiles (failed : Nat) (files : List Path) :
    (validateFiles s read schema total failed files).Own := by
  induction files generalizing failed with
  | nil => exact own_finish failed
  | cons file files ih =>
    have hlogged : ∀ r ∈ (judge s read file).2, Logging.initial.IsOwn r := own_judge file
    rw [validateFiles]
    cases hjudge : judge s read file with
    | mk verdict logged =>
      rw [hjudge] at hlogged
      refine Outcome.Own.after ?_ (List.forall_mem_cons.mpr ⟨isOwn_runRecord _ _, hlogged⟩) []
      cases verdict with
      | valid => exact ih failed
      | invalid message => exact (ih (failed + 1)).printing message
      | unreadable message => exact Outcome.own_failing message
      | crashed c => exact Outcome.own_of_no_records rfl

end Files

theorem own_validateAgainst (read : Reader) (schema : Path) (files : List Path) :
    (validateAgainst read schema files).Own := by
  unfold validateAgainst
  split
  · exact Outcome.own_failing _
  · split
    · exact Outcome.own_of_no_records rfl
    · split
      · exact Outcome.own_failing _
      · exact Outcome.own_of_no_records rfl
      · exact (own_validateFiles 0 files).after
          (List.forall_mem_singleton.mpr (isOwn_validationRecord _)) []

/-- A run logs nothing but records of the library. -/
theorem own_validatePaths (read : Reader) (paths : List (List Char)) :
    (validatePaths read paths).Own := by
  unfold validatePaths
  split
  · exact Outcome.own_failing _
  · exact Outcome.own_failing _
  · exact own_validateAgainst read _ _

/-! ## 3. What is shown -/

/-- The level from which on a run shows its log: that of debugging if it is verbose, else that of the
    settings. -/
def effectiveLevel (settings : Settings) (verbose : Bool) : Nat :=
  if verbose then Verbosity.debug.level else settings.level

theorem effectiveLevel_pos (settings : Settings) (verbose : Bool) :
    Verbosity.debug.level ≤ effectiveLevel settings verbose := by
  obtain ⟨debug, logLevel⟩ := settings
  cases verbose <;> cases debug <;> cases logLevel <;> decide

/-- Logging is configured by the settings, and again if a run is verbose: the last level counts. -/
theorem logging_eq_atLevel (settings : Settings) (verbose : Bool) :
    logging settings verbose = Logging.initial.atLevel (effectiveLevel settings verbose) := by
  cases verbose with
  | false => rfl
  | true => exact Logging.atLevel_atLevel ..

/-- The records of a run that are shown are those from its level on. -/
theorem shown_validatePaths (settings : Settings) (verbose : Bool) (read : Reader)
    (paths : List (List Char)) :
    (logging settings verbose).shown (validatePaths read paths).records =
      (validatePaths read paths).records.filter
        fun r => effectiveLevel settings verbose ≤ r.level := by
  have hpos : 0 < effectiveLevel settings verbose :=
    Nat.lt_of_lt_of_le (by decide) (effectiveLevel_pos settings verbose)
  have hunattended : Logging.initial.Unattended := by decide
  rw [logging_eq_atLevel, Logging.shown_atLevel hunattended (own_validatePaths read paths) hpos]

namespace Response

/-- The records that an answer shows. -/
def records : Response → List LogRecord
  | .finished o => o.records
  | _ => []

/-- An answer with only some of its records. -/
def showing (keep : LogRecord → Bool) : Response → Response
  | .finished o => .finished { o with records := o.records.filter keep }
  | r => r

/-- An answer without its records: what is printed, and how it ends. -/
def withoutLog (r : Response) : Response :=
  r.showing fun _ => false

theorem records_showing (keep : LogRecord → Bool) (r : Response) :
    (r.showing keep).records = r.records.filter keep := by
  cases r <;> rfl

theorem withoutLog_showing (keep : LogRecord → Bool) (r : Response) :
    (r.showing keep).withoutLog = r.withoutLog := by
  cases r with
  | finished o => simp [withoutLog, showing]
  | _ => rfl

end Response

/-- What the command answers if every record is shown. -/
def answer (read : Reader) : Option Request → Response
  | none => .usageError
  | some .help => .help
  | some (.check _ paths) => .finished (validatePaths read paths)

/-- The verbosity of a request has no influence on the answer. -/
theorem answer_quiet (read : Reader) (request : Option Request) :
    answer read (request.map Request.quiet) = answer read request := by
  cases request with
  | none => rfl
  | some request => cases request <;> rfl

theorem isVerbose_of_check {arguments : List (List Char)} {verbose : Bool}
    {paths : List (List Char)}
    (h : Request.ofArguments? arguments = some (.check verbose paths)) :
    isVerbose arguments = verbose := by
  rw [Request.ofArguments?] at h
  rw [isVerbose]
  cases hread : readArguments arguments with
  | none =>
    rw [hread] at h
    cases h
  | some r =>
    rw [hread] at h
    dsimp only at h
    split at h
    · cases h
    · split at h
      · cases h
        rfl
      · cases h

/-- **The log is a filter.** A run answers what its request is answered, and shows of the records
    those from its level on. -/
theorem run_eq_showing (settings : Settings) (read : Reader) (arguments : List (List Char)) :
    run settings read arguments = (answer read (Request.ofArguments? arguments)).showing
      fun r => effectiveLevel settings (isVerbose arguments) ≤ r.level := by
  rw [run]
  cases hrequest : Request.ofArguments? arguments with
  | none => rfl
  | some request =>
    cases request with
    | help => rfl
    | check verbose paths =>
      rw [isVerbose_of_check hrequest]
      dsimp only
      rw [shown_validatePaths]
      rfl

/-! ## 4. Settings -/

/-- The text of the settings file, if there is one. -/
def settingsFile (read : Reader) : Except StartFault (Option (List Char)) :=
  match read settingsPath with
  | .error f => if f.isMissing then .ok none else .error (.unreadable f)
  | .ok bytes =>
    match utf8? bytes with
    | none => .error .notText
    | some file => .ok (some file)

theorem settings_eq (environment : List (List Char × List Char)) (read : Reader) :
    settings environment read = (settingsFile read).bind fun file =>
      match Settings.load? environment file with
      | some s => .ok s
      | none => .error .settings := by
  rw [settings, settingsFile]
  cases read settingsPath with
  | error f =>
    dsimp only
    cases f.isMissing <;> rfl
  | ok bytes =>
    dsimp only
    cases utf8? bytes <;> rfl

/-- Under interchangeable environments the command starts, or it fails to start alike. -/
theorem settings_alike {read : Reader} {environment environment' : List (List Char × List Char)}
    (h : ∀ file, settingsFile read = .ok file →
      Settings.Interchangeable environment environment' file) :
    (∃ s s', settings environment read = .ok s ∧ settings environment' read = .ok s') ∨
      ∃ f, settings environment read = .error f ∧ settings environment' read = .error f := by
  rw [settings_eq, settings_eq]
  cases hfile : settingsFile read with
  | error f => exact .inr ⟨f, rfl, rfl⟩
  | ok file =>
    have hloads := (h file hfile).exists_load?_iff
    simp only [Except.bind]
    cases hs : Settings.load? environment file with
    | some s =>
      obtain ⟨s', hs'⟩ := hloads.mp ⟨s, hs⟩
      exact .inl ⟨s, s', rfl, by rw [hs']⟩
    | none =>
      have hnone : Settings.load? environment' file = none :=
        Option.eq_none_iff_forall_ne_some.mpr fun s' hs' => by
          obtain ⟨s, hsome⟩ := hloads.mpr ⟨s', hs'⟩
          rw [hs] at hsome
          cases hsome
      exact .inr ⟨.settings, rfl, by rw [hnone]⟩

/-! ## 5. Two runs of one command -/

theorem launch_of_settings {environment : List (List Char × List Char)} {read : Reader}
    {s : Settings} (h : settings environment read = .ok s) (arguments : List (List Char)) :
    launch environment read arguments = .ok (run s read arguments) := by
  rw [launch, h]
  rfl

/-- The answer to a command has nothing to do with the switch for verbosity. -/
theorem Switched.answer {base line : List (List Char)} (h : Switched base line) (read : Reader) :
    answer read (Request.ofArguments? line) = answer read (Request.ofArguments? base) := by
  rw [← answer_quiet read (Request.ofArguments? line), h.request, answer_quiet]

/-- A verbose run shows every record of which any run of the command shows some. -/
theorem records_verbose {front back : List (List Char)} {word : List Char}
    (hfront : ['-', '-'] ∉ front) (hword : word ∈ verboseWords) (s : Settings) (read : Reader)
    {level : Nat} (hlevel : Verbosity.debug.level ≤ level) :
    ((run s read (front ++ word :: back)).records.filter fun r => level ≤ r.level) =
      (answer read (Request.ofArguments? (front ++ back))).records.filter
        fun r => level ≤ r.level := by
  -- The verbose run has filtered already, at the lowest level: filtering again forgets that.
  rw [run_eq_showing, Response.records_showing, List.filter_filter,
    (Switched.verbose rfl hfront hword).answer read]
  cases hrequest : Request.ofArguments? (front ++ back) with
  | none => rfl
  | some request =>
    rw [isVerbose_switched hfront hword (by rw [hrequest]; exact Option.some_ne_none _)]
    refine List.filter_congr fun r _ => ?_
    rw [effectiveLevel, if_pos rfl]
    simp only [Bool.and_eq_left_iff_imp, decide_eq_true_eq]
    exact Nat.le_trans hlevel

/-- The environment in which one variable of the library is set. -/
def variableSet (name value : String) : List (List Char × List Char) :=
  [(("DATA_VALIDATOR_" ++ name).toList, value.toList)]

/-- A folder with a settings file, a schema and a collection that is no list. -/
def reportedFolder : Folder :=
  [textFile ".env" "DATA_VALIDATOR_DEBUG=no",
   textFile "s" "description: x\nused_by: []\nproperties: \x7b\x7d", textFile "b" "5"]

/-- A folder whose settings file names a variable inside the value of another. -/
def referringFolder : Folder :=
  [textFile ".env" "DATA_VALIDATOR_LOG_LEVEL=WAR$\x7bDATA_VALIDATOR_DEBUG\x7dING\n",
   textFile "s" "description: d\nused_by: []\nproperties: \x7b\x7d\n",
   textFile "ok" "- \x7b\x7d\n"]

end Conform.Command
