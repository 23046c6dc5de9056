import Mathlib.Data.List.Forall2
import Conform.Proofs.Command.Runs
import Conform.Proofs.Markup.SameTokens

/-!
# Line ends

How the lines of a document end makes no difference: two runs of the reader, over a text as it is
and over the text with its line ends made plain, come to the same document (`load_plainLines`), so
everything that is made of it is the same. The command reads files with their line ends made plain,
and the library is given texts as they are. That is why both say the same about a file
(`line_ends_never_matter`).
-/

namespace Conform

/-! ## 1. The same schema and the same verdict -/

namespace Schema

theorem compile_plainLines (t : List Char) : compile (plainLines t) = compile t := by
  rw [compile, compile, Markup.load_plainLines]

theorem validate_plainLines (s : Schema) (t : List Char) :
    s.validate (plainLines t) = s.validate t := by
  rw [validate, validate, examine, examine, Markup.load_plainLines]

end Schema

namespace Command

/-! ## 2. Files and texts -/

/-- A file that can be read, and whose bytes are a text, with the line ends that it has. -/
def Holds (read : Reader) (file : Path) (text : List Char) : Prop :=
  ∃ bytes, read file = .ok bytes ∧ utf8? bytes = some text

/-- What the result of a check means for a file. -/
def Verdict.ofResult : Except Fault Schema.Result → Verdict
  | .ok result => if result.valid then .valid else .invalid result.message
  | .error f => .crashed (.fault f)

/-- Checking and validating a text come to the same. -/
theorem ofResult_result (s : Schema) (text : List Char) :
    Verdict.ofResult (s.result text) = .of (s.validate text) := by
  rw [Schema.result]
  cases s.validate text with
  | ok u => rfl
  | error failure => cases failure <;> rfl

section Files

variable {s : Schema} {read : Reader} {schema file : Path} {text : List Char}

theorem Holds.fileText? (h : Holds read file text) :
    ∃ bytes, read file = .ok bytes ∧ Conform.fileText? bytes = some (plainLines text) := by
  obtain ⟨bytes, hread, htext⟩ := h
  refine ⟨bytes, hread, ?_⟩
  rw [Conform.fileText?, htext]
  rfl

theorem Holds.validates (h : Holds read file text) :
    Validates s read file (s.validate text) := by
  obtain ⟨bytes, hread, htext⟩ := h.fileText?
  exact ⟨bytes, _, hread, htext, Schema.validate_plainLines s text⟩

theorem Holds.compiles (h : Holds read schema text) :
    Compiles read schema (Schema.compile text) := by
  obtain ⟨bytes, hread, htext⟩ := h.fileText?
  exact ⟨bytes, _, hread, htext, Schema.compile_plainLines text⟩

/-- The verdict on a file is the result of checking its text. -/
theorem Holds.verdict (h : Holds read file text) :
    (judge s read file).1 = .ofResult (s.result text) := by
  rw [h.validates.verdict, ofResult_result]

end Files

/-! ## 3. Runs and checks -/

/-- The outcome of some checks, one after the other, when some have failed so far. -/
def Outcome.ofResults (failed : Bool) : List (Except Fault Schema.Result) → Outcome
  | [] => { ending := .done (if failed then 1 else 0) }
  | .ok result :: rest =>
    if result.valid then ofResults failed rest
    else .printing result.message (ofResults true rest)
  | .error f :: _ => .crash (.fault f)

/-- The outcome of compiling the text of a schema and checking some texts. -/
def Outcome.ofTexts (schema : List Char) (texts : List (List Char)) : Outcome :=
  match Schema.compile schema with
  | .ok s => .ofResults false (texts.map s.result)
  | .error (.rejected r) => .failing r.message
  | .error (.faulted f) => .crash (.fault f)

/-- The files of a run are checked as their texts are. -/
theorem validateFiles_looks {s : Schema} {read : Reader} {schema : Path} {total : Nat}
    {files : List Path} {texts : List (List Char)} (h : List.Forall₂ (Holds read) files texts)
    (failed : Nat) :
    (validateFiles s read schema total failed files).Looks
      (.ofResults (decide (failed ≠ 0)) (texts.map s.result)) := by
  induction h generalizing failed with
  | nil =>
    rw [validateFiles, finish]
    cases failed with
    | zero => exact .refl _
    | succ n => exact ⟨rfl, rfl⟩
  | @cons file text files texts hfile _ ih =>
    refine (validateFiles_cons failed file files).trans ?_
    rw [hfile.verdict, List.map_cons]
    cases s.result text with
    | error f => exact .refl _
    | ok result =>
      rw [Outcome.ofResults, Verdict.ofResult]
      cases result.valid with
      | true => exact ih failed
      | false => exact (ih (failed + 1)).printing result.message

theorem validateAgainst_texts {read : Reader} {schema : Path} {files : List Path}
    {schemaText : List Char} {texts : List (List Char)} (hschema : Holds read schema schemaText)
    (hfiles : List.Forall₂ (Holds read) files texts) :
    (validateAgainst read schema files).Looks (.ofTexts schemaText texts) := by
  have hcompiles := hschema.compiles
  rw [Outcome.ofTexts]
  cases hresult : Schema.compile schemaText with
  | ok s =>
    rw [hresult] at hcompiles
    exact (validateAgainst_compiled hcompiles).trans (validateFiles_looks hfiles 0)
  | error failure =>
    obtain ⟨bytes, text, hread, htext, hcompile⟩ := hcompiles
    rw [validateAgainst, hread]
    simp only [htext, hcompile, hresult]
    cases failure <;> exact .refl _

/-- **Line ends never matter.** A text and the same text with plain line ends are the same document,
    or fail alike. So the command, which makes line ends plain, says about files what compiling and
    checking their texts says, report by report. -/
theorem line_ends_never_matter :
    (∀ t, Markup.load (plainLines t) = Markup.load t) ∧
    (∀ t, Schema.compile (plainLines t) = Schema.compile t) ∧
    (∀ (s : Schema) t, s.result (plainLines t) = s.result t) ∧
    (∀ (s : Schema) (read : Reader) file t, Holds read file t →
      (judge s read file).1 = .ofResult (s.result t)) ∧
    ∀ (read : Reader) schema files schemaText texts, Holds read schema schemaText →
      List.Forall₂ (Holds read) files texts →
      (validateAgainst read schema files).output = (Outcome.ofTexts schemaText texts).output ∧
      (validateAgainst read schema files).ending = (Outcome.ofTexts schemaText texts).ending := by
  refine ⟨Markup.load_plainLines, Schema.compile_plainLines, fun s t => ?_,
    fun s read file t h => h.verdict, fun read schema files schemaText texts hschema hfiles => ?_⟩
  · rw [Schema.result, Schema.result, Schema.validate_plainLines]
  · have hlooks := validateAgainst_texts hschema hfiles
    exact ⟨hlooks.output, hlooks.ending⟩

/-- A schema with returns and line feeds, and a collection with returns only. -/
def returnFolder : Folder :=
  [textFile "s" "description: x\r\nused_by: []\r\nproperties: \x7b\x7d\r\n",
   textFile "a" "- \x7b\x7d\r- 5\r"]

theorem returns_never_matter : ∃ schemaText text,
    Holds returnFolder.read (.ofChars "s".toList) schemaText ∧
    Holds returnFolder.read (.ofChars "a".toList) text ∧
    plainLines schemaText ≠ schemaText ∧ plainLines text ≠ text ∧
    (validateAgainst returnFolder.read (.ofChars "s".toList) [.ofChars "a".toList]).output =
      (Outcome.ofTexts schemaText [text]).output ∧
    (validateAgainst returnFolder.read (.ofChars "s".toList) [.ofChars "a".toList]).ending =
      (Outcome.ofTexts schemaText [text]).ending := by
  have hschema : Holds returnFolder.read (.ofChars "s".toList)
      "description: x\r\nused_by: []\r\nproperties: \x7b\x7d\r\n".toList :=
    ⟨_, rfl, by decide +kernel⟩
  have hfile : Holds returnFolder.read (.ofChars "a".toList) "- \x7b\x7d\r- 5\r".toList :=
    ⟨_, rfl, by decide +kernel⟩
  obtain ⟨-, -, -, -, hruns⟩ := line_ends_never_matter
  exact ⟨_, _, hschema, hfile, by decide, by decide,
    hruns returnFolder.read _ _ _ _ hschema (.cons hfile .nil)⟩

end Command

end Conform
