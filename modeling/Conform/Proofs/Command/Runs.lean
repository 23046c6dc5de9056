import Mathlib.Data.List.Forall2
import Mathlib.Data.List.ReduceOption
import Conform.Command.Run
import Conform.Proofs.Failing

/-!
# Runs of the command

What a run has to print and how it has to end (`Demands`), said by the first file that cuts it short:
the reports of the invalid files in front of that file, in their order, and the message about it if
it cannot be read. A run does what is demanded of it exactly if every message can be printed
(`run_meets_demands_iff`): a report that holds a lone surrogate crashes the run, and the files behind
it are not looked at. In any case the status is zero only if all files are valid, and nothing behind
the file that cuts a run short has any influence.
-/

namespace Conform.Command

/-! ## 1. What comes of a file -/

/-- The file at a path can be read as text, and its validation ends like this. -/
def Validates (s : Schema) (read : Reader) (file : Path) (result : Except Failure Unit) : Prop :=
  ∃ bytes text, read file = .ok bytes ∧ fileText? bytes = some text ∧ s.validate text = result

/-- A file is valid, or it is invalid and there is a report about it. -/
inductive Checked (s : Schema) (read : Reader) (file : Path) : Option Text → Prop where
  | valid (h : Validates s read file (.ok ())) : Checked s read file none
  | invalid {r : Rejection} (h : Validates s read file (.error (.rejected r))) :
      Checked s read file (some r.message)

/-- A file that is no text, or whose validation fails with anything but a rejection. -/
inductive Crashes (s : Schema) (read : Reader) (file : Path) : Crash → Prop where
  | notText {bytes : List UInt8} (hread : read file = .ok bytes) (h : fileText? bytes = none) :
      Crashes s read file .notText
  | fault {f : Fault} (h : Validates s read file (.error (.faulted f))) :
      Crashes s read file (.fault f)

/-- A file that cuts a run short: it cannot be read, or it crashes the run. -/
def Stops (s : Schema) (read : Reader) (file : Path) : Prop :=
  (∃ f, read file = .error f) ∨ ∃ c, Crashes s read file c

/-- The schema file can be read as text, and compiling it ends like this. -/
def Compiles (read : Reader) (schema : Path) (result : Except Failure Schema) : Prop :=
  ∃ bytes text, read schema = .ok bytes ∧ fileText? bytes = some text ∧ Schema.compile text = result

/-! ## 2. What a run has to do -/

/-- The messages that a run has to print, and how it has to end. -/
inductive Demands (read : Reader) (schema : Path) (files : List Path) : List Text → Ending → Prop where
  | schemaUnreadable {f : ReadFault} (h : read schema = .error f) :
      Demands read schema files [Text.ofChars (f.message schema)] (.done 1)
  | schemaRejected {r : Rejection} (h : Compiles read schema (.error (.rejected r))) :
      Demands read schema files [r.message] (.done 1)
  | schemaNotText {bytes : List UInt8} (hread : read schema = .ok bytes)
      (h : fileText? bytes = none) : Demands read schema files [] (.crashed .notText)
  | schemaFaulted {f : Fault} (h : Compiles read schema (.error (.faulted f))) :
      Demands read schema files [] (.crashed (.fault f))
  /-- No file cuts the run short. -/
  | completed {s : Schema} {results : List (Option Text)} (h : Compiles read schema (.ok s))
      (hfiles : List.Forall₂ (Checked s read) files results) :
      Demands read schema files results.reduceOption
        (.done (if results.reduceOption = [] then 0 else 1))
  /-- A file cannot be read, and none in front of it cuts the run short. -/
  | unreadable {s : Schema} {before after : List Path} {results : List (Option Text)} {file : Path}
      {f : ReadFault} (h : Compiles read schema (.ok s)) (hfiles : files = before ++ file :: after)
      (hbefore : List.Forall₂ (Checked s read) before results) (hfile : read file = .error f) :
      Demands read schema files (results.reduceOption ++ [Text.ofChars (f.message file)]) (.done 1)
  /-- A file crashes the run, and none in front of it cuts the run short. -/
  | crashed {s : Schema} {before after : List Path} {results : List (Option Text)} {file : Path}
      {c : Crash} (h : Compiles read schema (.ok s)) (hfiles : files = before ++ file :: after)
      (hbefore : List.Forall₂ (Checked s read) before results) (hfile : Crashes s read file c) :
      Demands read schema files results.reduceOption (.crashed c)

/-- An output that consists of some messages as they are printed, one behind the other. -/
def Prints (messages : List Text) (output : List Char) : Prop :=
  ∃ shown, List.Forall₂ (fun message cs => Console.print? message = some cs) messages shown ∧
    output = shown.flatten

/-- The status with which the command ends. -/
def Ending.status : Ending → Nat
  | .done status => status
  | .crashed _ => 1

/-! ## 3. Verdicts -/

theorem judgeText_verdict (s : Schema) (text : List Char) :
    (judgeText s text).1 = .of (s.validate text) := by
  rw [judgeText, Schema.validate]
  cases s.examine text <;> rfl

theorem Validates.verdict {s : Schema} {read : Reader} {file : Path} {result : Except Failure Unit}
    (h : Validates s read file result) : (judge s read file).1 = .of result := by
  obtain ⟨bytes, text, hread, htext, rfl⟩ := h
  rw [judge, hread]
  simp only [htext]
  exact judgeText_verdict s text

/-- The verdict on a checked file. -/
def Verdict.ofReport : Option Text → Verdict
  | none => .valid
  | some message => .invalid message

theorem Checked.verdict {s : Schema} {read : Reader} {file : Path} {report : Option Text}
    (h : Checked s read file report) : (judge s read file).1 = .ofReport report := by
  cases h with
  | valid h => exact h.verdict
  | invalid h => exact h.verdict

theorem Crashes.verdict {s : Schema} {read : Reader} {file : Path} {c : Crash}
    (h : Crashes s read file c) : (judge s read file).1 = .crashed c := by
  cases h with
  | notText hread h =>
    rw [judge, hread]
    simp only [h]
  | fault h => exact h.verdict

theorem verdict_of_unreadable {s : Schema} {read : Reader} {file : Path} {f : ReadFault}
    (h : read file = .error f) :
    (judge s read file).1 = .unreadable (Text.ofChars (f.message file)) := by
  rw [judge, h]

/-- Every file is checked, or cuts the run short. -/
theorem checked_or_stops (s : Schema) (read : Reader) (file : Path) :
    (∃ report, Checked s read file report) ∨ Stops s read file := by
  cases hread : read file with
  | error f => exact .inr (.inl ⟨f, hread⟩)
  | ok bytes =>
    cases htext : fileText? bytes with
    | none => exact .inr (.inr ⟨_, .notText hread htext⟩)
    | some text =>
      cases hresult : s.validate text with
      | ok u => exact .inl ⟨none, .valid ⟨bytes, text, hread, htext, hresult⟩⟩
      | error e =>
        cases e with
        | rejected r => exact .inl ⟨_, .invalid ⟨bytes, text, hread, htext, hresult⟩⟩
        | faulted f => exact .inr (.inr ⟨_, .fault ⟨bytes, text, hread, htext, hresult⟩⟩)

/-- No file does both. -/
theorem not_stops_of_checked {s : Schema} {read : Reader} {file : Path} {report : Option Text}
    (h : Checked s read file report) : ¬ Stops s read file := by
  have hverdict := h.verdict
  rintro (⟨f, hf⟩ | ⟨c, hc⟩)
  · rw [verdict_of_unreadable hf] at hverdict
    cases report <;> cases hverdict
  · rw [hc.verdict] at hverdict
    cases report <;> cases hverdict

/-! ## 4. Outcomes as they are seen -/

/-- Two outcomes that differ at most in what is logged. -/
structure Outcome.Looks (o o' : Outcome) : Prop where
  output : o.output = o'.output
  ending : o.ending = o'.ending

namespace Outcome

theorem Looks.refl (o : Outcome) : o.Looks o := ⟨rfl, rfl⟩

theorem Looks.trans {o o' o'' : Outcome} (h : o.Looks o') (h' : o'.Looks o'') : o.Looks o'' :=
  ⟨h.output.trans h'.output, h.ending.trans h'.ending⟩

theorem looks_after (o : Outcome) (records : List LogRecord) : (o.after [] records).Looks o :=
  ⟨rfl, rfl⟩

theorem Looks.printing {o o' : Outcome} (h : o.Looks o') (message : Text) :
    (Outcome.printing message o).Looks (Outcome.printing message o') := by
  unfold Outcome.printing
  cases Console.print? message with
  | none => exact .refl _
  | some shown => exact ⟨congrArg (shown ++ ·) h.output, h.ending⟩

/-- The outcome of printing some messages and going on. -/
def printingAll (messages : List Text) (next : Outcome) : Outcome :=
  messages.foldr printing next

theorem Looks.printingAll {o o' : Outcome} (h : o.Looks o') (messages : List Text) :
    (Outcome.printingAll messages o).Looks (Outcome.printingAll messages o') := by
  induction messages with
  | nil => exact h
  | cons message messages ih => exact ih.printing message

/-- A message can be printed exactly if it holds no lone surrogate. -/
theorem print?_isSome_iff {message : Text} :
    (∃ shown, Console.print? message = some shown) ↔ ∃ cs, message.chars? = some cs := by
  rw [Console.print?]
  cases message.chars? <;> simp

/-- Messages that can be printed are printed in front of what comes next. -/
theorem output_printingAll {messages : List Text} {shown : List (List Char)}
    (h : List.Forall₂ (fun message cs => Console.print? message = some cs) messages shown)
    (next : Outcome) :
    (printingAll messages next).output = shown.flatten ++ next.output ∧
      (printingAll messages next).ending = next.ending := by
  induction h with
  | nil => exact ⟨rfl, rfl⟩
  | @cons message cs messages shown hm _ ih =>
    have hstep : printingAll (message :: messages) next =
        (printingAll messages next).after cs [] := by
      show printing message (printingAll messages next) = _
      rw [printing, hm]
    rw [hstep, List.flatten_cons, List.append_assoc]
    exact ⟨congrArg (cs ++ ·) ih.1, ih.2⟩

/-- A message that cannot be printed crashes the run. -/
theorem ending_printingAll {messages : List Text} {message : Text} (hmem : message ∈ messages)
    (h : message.chars? = none) (next : Outcome) :
    (printingAll messages next).ending = .crashed .unprintable := by
  induction messages with
  | nil => cases hmem
  | cons first messages ih =>
    show (printing first (printingAll messages next)).ending = _
    unfold printing
    cases hfirst : Console.print? first with
    | none => rfl
    | some shown =>
      cases hmem with
      | head =>
        rw [Console.print?, h] at hfirst
        cases hfirst
      | tail _ hmem => exact ih hmem

theorem exists_shown {messages : List Text} (h : ∀ m ∈ messages, ∃ cs, Text.chars? m = some cs) :
    ∃ shown, List.Forall₂ (fun message cs => Console.print? message = some cs) messages shown := by
  induction messages with
  | nil => exact ⟨[], .nil⟩
  | cons message messages ih =>
    obtain ⟨hm, hms⟩ := List.forall_mem_cons.mp h
    obtain ⟨cs, hcs⟩ := print?_isSome_iff.mpr hm
    obtain ⟨shown, hshown⟩ := ih hms
    exact ⟨cs :: shown, .cons hcs hshown⟩

end Outcome

theorem Prints.printable {messages : List Text} {output : List Char} (h : Prints messages output) :
    ∀ m ∈ messages, ∃ cs, Text.chars? m = some cs := by
  obtain ⟨shown, hshown, -⟩ := h
  induction hshown with
  | nil => exact fun _ hm => absurd hm List.not_mem_nil
  | cons hm _ ih => exact List.forall_mem_cons.mpr ⟨Outcome.print?_isSome_iff.mp ⟨_, hm⟩, ih⟩

/-! ## 5. The files of a run -/

section Files

variable {s : Schema} {read : Reader} {schema : Path} {total : Nat}

/-- What comes of a verdict, when some files have failed so far. -/
theorem validateFiles_cons (failed : Nat) (file : Path) (rest : List Path) :
    (validateFiles s read schema total failed (file :: rest)).Looks
      (match (judge s read file).1 with
        | .valid => validateFiles s read schema total failed rest
        | .invalid message =>
          .printing message (validateFiles s read schema total (failed + 1) rest)
        | .unreadable message => .failing message
        | .crashed c => .crash c) :=
  Outcome.looks_after _ _

/-- Files that do not cut the run short: the reports about them are printed, and it goes on. -/
theorem validateFiles_checked {before : List Path} {results : List (Option Text)}
    (h : List.Forall₂ (Checked s read) before results) (failed : Nat) (rest : List Path) :
    (validateFiles s read schema total failed (before ++ rest)).Looks
      (Outcome.printingAll results.reduceOption
        (validateFiles s read schema total (failed + results.reduceOption.length) rest)) := by
  induction h generalizing failed with
  | nil => exact .refl _
  | @cons file report before results hfile _ ih =>
    refine (validateFiles_cons failed file (before ++ rest)).trans ?_
    rw [hfile.verdict]
    cases report with
    | none => exact ih failed
    | some message =>
      have hstep := (ih (failed + 1)).printing message
      rw [Nat.add_right_comm, Nat.add_assoc] at hstep
      exact hstep

/-- The files in front of the first one that cuts the run short, if any does. -/
theorem checked_up_to_stop (s : Schema) (read : Reader) (files : List Path) :
    ∃ before after results, files = before ++ after ∧
      List.Forall₂ (Checked s read) before results ∧
      ∀ file ∈ after.head?, Stops s read file := by
  induction files with
  | nil => exact ⟨[], [], [], rfl, .nil, fun _ h => by cases h⟩
  | cons file files ih =>
    rcases checked_or_stops s read file with ⟨report, hfile⟩ | hstop
    · obtain ⟨before, after, results, rfl, hbefore, hafter⟩ := ih
      exact ⟨file :: before, after, report :: results, rfl, .cons hfile hbefore, hafter⟩
    · refine ⟨[], file :: files, [], rfl, .nil, fun f hf => ?_⟩
      cases hf
      exact hstop

/-- Files behind one that cuts the run short have no influence on the rest of the run. -/
theorem validateFiles_congr {read' : Reader} {before : List Path}
    (hread : ∀ file ∈ before, read' file = read file) {after : List Path}
    (hstop : after ≠ [] → ∃ file ∈ before, Stops s read file) (failed : Nat) :
    validateFiles s read' schema total failed (before ++ after) =
      validateFiles s read schema total failed (before ++ after) := by
  induction before generalizing failed with
  | nil =>
    have hnil : after = [] := Classical.not_not.mp fun hne => by
      obtain ⟨_, hmem, -⟩ := hstop hne
      cases hmem
    rw [hnil]
    rfl
  | cons file before ih =>
    obtain ⟨hfile, hbefore⟩ := List.forall_mem_cons.mp hread
    have hjudge : judge s read' file = judge s read file := by
      rw [judge, judge, hfile]
    rw [List.cons_append, validateFiles, validateFiles, hjudge]
    rcases checked_or_stops s read file with ⟨report, hchecked⟩ | hstops
    · have hrest := ih hbefore fun hne => by
        obtain ⟨stop, hmem, hs⟩ := hstop hne
        refine ⟨stop, (List.mem_cons.mp hmem).resolve_left fun heq => ?_, hs⟩
        subst heq
        exact not_stops_of_checked hchecked hs
      simp only [hrest]
    · rcases hstops with ⟨f, hf⟩ | ⟨c, hc⟩
      · simp only [verdict_of_unreadable hf]
      · simp only [hc.verdict]

end Files

/-! ## 6. The whole run -/

section Run

variable {read : Reader} {schema : Path} {files : List Path} {messages : List Text} {e : Ending}

theorem validateAgainst_compiled {s : Schema} (h : Compiles read schema (.ok s)) :
    (validateAgainst read schema files).Looks
      (validateFiles s read schema files.length 0 files) := by
  obtain ⟨bytes, text, hread, htext, hcompile⟩ := h
  rw [validateAgainst, hread]
  simp only [htext, hcompile]
  exact Outcome.looks_after _ _

/-- **A run prints the messages it has to print and ends as it has to**, as far as the messages can
    be printed. -/
theorem validateAgainst_looks (h : Demands read schema files messages e) :
    (validateAgainst read schema files).Looks
      (Outcome.printingAll messages { ending := e }) := by
  cases h with
  | schemaUnreadable h =>
    rw [validateAgainst, h]
    exact .refl _
  | schemaRejected h =>
    obtain ⟨bytes, text, hread, htext, hcompile⟩ := h
    rw [validateAgainst, hread]
    simp only [htext, hcompile]
    exact .refl _
  | schemaNotText hread h =>
    rw [validateAgainst, hread]
    simp only [h]
    exact .refl _
  | schemaFaulted h =>
    obtain ⟨bytes, text, hread, htext, hcompile⟩ := h
    rw [validateAgainst, hread]
    simp only [htext, hcompile]
    exact .refl _
  | @completed s results h hfiles =>
    have hrun : (validateFiles s read schema files.length 0 (files ++ [])).Looks _ :=
      validateFiles_checked hfiles 0 []
    rw [List.append_nil, Nat.zero_add] at hrun
    refine ((validateAgainst_compiled h).trans hrun).trans (Outcome.Looks.printingAll ?_ _)
    rw [validateFiles, finish]
    cases results.reduceOption with
    | nil => exact .refl _
    | cons m ms => exact ⟨rfl, rfl⟩
  | @unreadable s before after results file f h hfiles hbefore hfile =>
    subst hfiles
    refine ((validateAgainst_compiled h).trans (validateFiles_checked hbefore 0 _)).trans ?_
    rw [Outcome.printingAll, Outcome.printingAll, List.foldr_append]
    refine Outcome.Looks.printingAll ?_ _
    refine (validateFiles_cons _ file after).trans ?_
    rw [verdict_of_unreadable hfile]
    exact .refl _
  | @crashed s before after results file c h hfiles hbefore hfile =>
    subst hfiles
    refine ((validateAgainst_compiled h).trans (validateFiles_checked hbefore 0 _)).trans ?_
    refine Outcome.Looks.printingAll ?_ _
    refine (validateFiles_cons _ file after).trans ?_
    rw [hfile.verdict]
    exact .refl _

/-- Something is demanded of every run. -/
theorem exists_demands (read : Reader) (schema : Path) (files : List Path) :
    ∃ messages e, Demands read schema files messages e := by
  cases hread : read schema with
  | error f => exact ⟨_, _, .schemaUnreadable hread⟩
  | ok bytes =>
    cases htext : fileText? bytes with
    | none => exact ⟨_, _, .schemaNotText hread htext⟩
    | some text =>
      cases hcompile : Schema.compile text with
      | error failure =>
        cases failure with
        | rejected r => exact ⟨_, _, .schemaRejected ⟨bytes, text, hread, htext, hcompile⟩⟩
        | faulted f => exact ⟨_, _, .schemaFaulted ⟨bytes, text, hread, htext, hcompile⟩⟩
      | ok s =>
        have h : Compiles read schema (.ok s) := ⟨bytes, text, hread, htext, hcompile⟩
        obtain ⟨before, after, results, hfiles, hbefore, hafter⟩ := checked_up_to_stop s read files
        cases after with
        | nil =>
          rw [List.append_nil] at hfiles
          exact ⟨_, _, .completed h (hfiles ▸ hbefore)⟩
        | cons file after =>
          rcases hafter file rfl with ⟨f, hf⟩ | ⟨c, hc⟩
          · exact ⟨_, _, .unreadable h hfiles hbefore hf⟩
          · exact ⟨_, _, .crashed h hfiles hbefore hc⟩

/-- A run does what is demanded of it exactly if all its messages can be printed. -/
theorem meets_demands_iff (h : Demands read schema files messages e) :
    (Prints messages (validateAgainst read schema files).output ∧
        (validateAgainst read schema files).ending = e) ↔
      ∀ m ∈ messages, ∃ cs, Text.chars? m = some cs := by
  constructor
  · exact fun hmeets => hmeets.1.printable
  · intro hprintable
    obtain ⟨shown, hshown⟩ := Outcome.exists_shown hprintable
    obtain ⟨houtput, hending⟩ := Outcome.output_printingAll hshown { ending := e }
    have hlooks := validateAgainst_looks h
    refine ⟨⟨shown, hshown, ?_⟩, hlooks.ending.trans hending⟩
    rw [hlooks.output, houtput]
    exact List.append_nil _

/-! ## 7. The status -/

/-- The schema compiles, and all files are valid. -/
def AllValid (read : Reader) (schema : Path) (files : List Path) : Prop :=
  ∃ s, Compiles read schema (.ok s) ∧ ∀ file ∈ files, Validates s read file (.ok ())

/-- Files about which there is no report are valid. -/
theorem valid_of_no_reports {s : Schema} {results : List (Option Text)}
    (h : List.Forall₂ (Checked s read) files results) (hnil : results.reduceOption = []) :
    ∀ file ∈ files, Validates s read file (.ok ()) := by
  induction h with
  | nil => exact fun _ hmem => absurd hmem List.not_mem_nil
  | cons hfile _ ih =>
    cases hfile with
    | valid hvalid => exact List.forall_mem_cons.mpr ⟨hvalid, ih hnil⟩
    | invalid _ => cases hnil

theorem no_reports_of_valid {s : Schema} (h : ∀ file ∈ files, Validates s read file (.ok ())) :
    ∃ results, List.Forall₂ (Checked s read) files results ∧ results.reduceOption = [] := by
  induction files with
  | nil => exact ⟨[], .nil, rfl⟩
  | cons file files ih =>
    obtain ⟨hfile, hfiles⟩ := List.forall_mem_cons.mp h
    obtain ⟨results, hresults, hnil⟩ := ih hfiles
    exact ⟨none :: results, .cons (.valid hfile) hresults, hnil⟩

/-- If all files are valid, nothing is printed. -/
theorem AllValid.looks (h : AllValid read schema files) :
    (validateAgainst read schema files).Looks { ending := .done 0 } := by
  obtain ⟨s, hs, hvalid⟩ := h
  obtain ⟨results, hresults, hnil⟩ := no_reports_of_valid hvalid
  have hlooks := validateAgainst_looks (.completed hs hresults)
  rw [hnil] at hlooks
  exact hlooks

/-- A run that has to end with status zero has to find all files valid. -/
theorem Demands.allValid (h : Demands read schema files messages e) (hzero : e.status = 0) :
    AllValid read schema files := by
  cases h with
  | schemaUnreadable => cases hzero
  | schemaRejected => cases hzero
  | schemaNotText => cases hzero
  | schemaFaulted => cases hzero
  | @completed s results h hfiles =>
    refine ⟨s, h, valid_of_no_reports hfiles (Classical.not_not.mp fun hne => ?_)⟩
    rw [if_neg hne] at hzero
    cases hzero
  | unreadable => cases hzero
  | crashed => cases hzero

theorem Demands.status_le (h : Demands read schema files messages e) : e.status ≤ 1 := by
  cases h with
  | completed =>
    split
    · exact Nat.zero_le 1
    · exact Nat.le_refl 1
  | _ => exact Nat.le_refl 1

/-- No run has to crash because a message cannot be printed. -/
theorem Demands.ne_unprintable (h : Demands read schema files messages e) :
    e ≠ .crashed .unprintable := by
  intro he
  subst he
  cases h with
  | crashed _ _ _ hfile => cases hfile

/-- How a run ends: as it has to, or because a message cannot be printed. -/
theorem Demands.ending (h : Demands read schema files messages e) :
    (validateAgainst read schema files).ending = e ∨
      (validateAgainst read schema files).ending = .crashed .unprintable := by
  by_cases hprintable : ∀ m ∈ messages, ∃ cs, Text.chars? m = some cs
  · exact .inl ((meets_demands_iff h).mpr hprintable).2
  · obtain ⟨m, hmem, hnone⟩ : ∃ m ∈ messages, ¬ ∃ cs, Text.chars? m = some cs := by
      simpa only [Classical.not_forall, exists_prop] using hprintable
    refine .inr ((validateAgainst_looks h).ending.trans (Outcome.ending_printingAll hmem ?_ _))
    exact Option.eq_none_iff_forall_ne_some.mpr fun cs hcs => hnone ⟨cs, hcs⟩

/-- The status is zero exactly if all files are valid, and one if not. -/
theorem status_validateAgainst (read : Reader) (schema : Path) (files : List Path) :
    ((validateAgainst read schema files).ending.status = 0 ↔ AllValid read schema files) ∧
      (validateAgainst read schema files).ending.status ≤ 1 := by
  obtain ⟨messages, e, h⟩ := exists_demands read schema files
  refine ⟨⟨fun hzero => ?_, fun hvalid => ?_⟩, ?_⟩
  · rcases h.ending with he | he
    · exact h.allValid (he ▸ hzero)
    · rw [he] at hzero
      cases hzero
  · rw [hvalid.looks.ending]
    rfl
  · rcases h.ending with he | he
    · exact he ▸ h.status_le
    · rw [he]
      exact Nat.le_refl 1

/-! ## 8. What has no influence -/

/-- If the schema does not compile, no other file has any influence. -/
theorem validateAgainst_congr_schema {read' : Reader} (hread : read' schema = read schema)
    (h : ¬ ∃ s, Compiles read schema (.ok s)) :
    validateAgainst read' schema files = validateAgainst read schema files := by
  rw [validateAgainst, validateAgainst, hread]
  cases hschema : read schema with
  | error f => rfl
  | ok bytes =>
    cases htext : fileText? bytes with
    | none => simp only [htext]
    | some text =>
      cases hcompile : Schema.compile text with
      | error failure => cases failure <;> simp only [htext, hcompile]
      | ok s => exact absurd ⟨s, bytes, text, hschema, htext, hcompile⟩ h

/-- Files behind one that cuts the run short have no influence. -/
theorem validateAgainst_congr {read' : Reader} {before after : List Path}
    (hread : ∀ file ∈ schema :: before, read' file = read file)
    (hstop : after ≠ [] → ∃ s, Compiles read schema (.ok s) ∧ ∃ file ∈ before, Stops s read file) :
    validateAgainst read' schema (before ++ after) =
      validateAgainst read schema (before ++ after) := by
  obtain ⟨hschema, hbefore⟩ := List.forall_mem_cons.mp hread
  by_cases h : ∃ s, Compiles read schema (.ok s)
  · obtain ⟨s, bytes, text, hs, htext, hcompile⟩ := h
    rw [validateAgainst, validateAgainst, hschema, hs]
    simp only [htext, hcompile]
    rw [validateFiles_congr hbefore fun hne => ?_]
    obtain ⟨s', ⟨bytes', text', hs', htext', hcompile'⟩, hstops⟩ := hstop hne
    cases hs.symm.trans hs'
    cases htext.symm.trans htext'
    cases hcompile.symm.trans hcompile'
    exact hstops
  · exact validateAgainst_congr_schema hschema h

end Run

/-! ## 9. The command -/

/-- The outcome of a command line with a schema and at least one file, apart from what is logged. -/
theorem run_eq_finished {arguments : List (List Char)} {verbose : Bool} {schema file : List Char}
    {files : List (List Char)}
    (h : Request.ofArguments? arguments = some (.check verbose (schema :: file :: files)))
    (settings : Settings) (read : Reader) :
    run settings read arguments = .finished
      { validateAgainst read (.ofChars schema) ((file :: files).map .ofChars) with
        records := (logging settings verbose).shown
          (validateAgainst read (.ofChars schema) ((file :: files).map .ofChars)).records } := by
  rw [run, h]
  rfl

/-- **What a run of the command does.** It does what is demanded of it exactly if no message that is
    due holds a lone surrogate. In any case its status is zero if all files are valid, and then
    nothing is printed, and one if not; nothing but the schema has any influence if that does not
    compile, and nothing behind a file that cuts the run short. -/
theorem run_meets_demands_iff {arguments : List (List Char)} {verbose : Bool}
    {schema file : List Char} {files : List (List Char)}
    (h : Request.ofArguments? arguments = some (.check verbose (schema :: file :: files)))
    (settings : Settings) (read : Reader) :
    ∃ o, run settings read arguments = .finished o ∧
      (∃ messages e,
        Demands read (.ofChars schema) ((file :: files).map .ofChars) messages e) ∧
      (∀ messages e, Demands read (.ofChars schema) ((file :: files).map .ofChars) messages e →
        ((Prints messages o.output ∧ o.ending = e) ↔
          ∀ m ∈ messages, ∃ cs, Text.chars? m = some cs)) ∧
      (o.ending.status = 0 ↔ AllValid read (.ofChars schema) ((file :: files).map .ofChars)) ∧
      o.ending.status ≤ 1 ∧ (o.ending.status = 0 → o.output = []) ∧
      (∀ read' : Reader, read' (.ofChars schema) = read (.ofChars schema) →
        (¬ ∃ s, Compiles read (.ofChars schema) (.ok s)) →
        run settings read' arguments = run settings read arguments) ∧
      ∀ (read' : Reader) (before after : List Path),
        (file :: files).map .ofChars = before ++ after →
        (∀ p ∈ .ofChars schema :: before, read' p = read p) →
        (after ≠ [] → ∃ s, Compiles read (.ofChars schema) (.ok s) ∧
          ∃ p ∈ before, Stops s read p) →
        run settings read' arguments = run settings read arguments := by
  obtain ⟨hzero, hle⟩ :=
    status_validateAgainst read (.ofChars schema) ((file :: files).map .ofChars)
  refine ⟨_, run_eq_finished h settings read, exists_demands .., fun _ _ => meets_demands_iff,
    hzero, hle, fun hstatus => ?_, fun read' hread hno => ?_, fun read' before after hfiles => ?_⟩
  · exact (hzero.mp hstatus).looks.output
  · rw [run_eq_finished h settings read, run_eq_finished h settings read',
      validateAgainst_congr_schema hread hno]
  · intro hread hstop
    rw [run_eq_finished h settings read, run_eq_finished h settings read', hfiles,
      validateAgainst_congr hread hstop]

/-- A file of a folder, with a text in it. -/
def textFile (name text : String) : List (List Char) × Entry :=
  ([name.toList], .file text.toUTF8.toList)

/-- A folder with a schema, a collection that has a lone surrogate as a key, and a collection that
    is no list. -/
def surrogateFolder : Folder :=
  [textFile "s" "description: x\nused_by: []\nproperties: \x7b\x7d",
   textFile "a" "- \"\\ud800\": 1", textFile "b" "5"]

theorem collection_is_reported : ∃ o,
    run {} surrogateFolder.read ["s".toList, "b".toList] = .finished o ∧
      o = ⟨"Collection is not an Array of objects\n".toList, [], .done 1⟩ ∧
      (o.ending.status = 0 ↔
        AllValid surrogateFolder.read (.ofChars "s".toList) [.ofChars "b".toList]) := by
  have arguments : Request.ofArguments? ["s".toList, "b".toList] =
      some (.check false ["s".toList, "b".toList]) := by decide
  have reported : run {} surrogateFolder.read ["s".toList, "b".toList] =
      .finished ⟨"Collection is not an Array of objects\n".toList, [], .done 1⟩ := by decide +kernel
  obtain ⟨o, ho, -, -, hstatus, -⟩ := run_meets_demands_iff arguments {} surrogateFolder.read
  refine ⟨o, ho, ?_, hstatus⟩
  rw [reported] at ho
  cases ho
  rfl

/-- A report about a key that is a lone surrogate crashes the run: nothing is printed, and the file
    behind it, which is not valid either, is not looked at. -/
theorem surrogate_key_stops_run : ∃ o,
    run {} surrogateFolder.read ["s".toList, "a".toList, "b".toList] = .finished o ∧
      o = ⟨[], [], .crashed .unprintable⟩ ∧
      (∃ messages e, Demands surrogateFolder.read (.ofChars "s".toList)
        [.ofChars "a".toList, .ofChars "b".toList] messages e) ∧
      ∀ messages e, Demands surrogateFolder.read (.ofChars "s".toList)
        [.ofChars "a".toList, .ofChars "b".toList] messages e →
          ¬ (Prints messages o.output ∧ o.ending = e) := by
  have crashed : run {} surrogateFolder.read ["s".toList, "a".toList, "b".toList] =
      .finished ⟨[], [], .crashed .unprintable⟩ := by decide +kernel
  refine ⟨_, crashed, rfl, exists_demands .., fun messages e h hmeets => ?_⟩
  exact h.ne_unprintable hmeets.2.symm

end Conform.Command
