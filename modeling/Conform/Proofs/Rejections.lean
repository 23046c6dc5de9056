import Conform.Proofs.Blocks
import Conform.Proofs.Reports
import Conform.Proofs.SchemaDocument

/-!
# What rejections say

A rejection has a message and lines, and there are three ways in which it gets them: the message is
the only line, the message is the lines joined, or it is the lines under an introduction. This file
says once for which texts validating and compiling reject and with what
(`validate_eq_rejected`, `compile_eq_rejected`). From it follows how message, lines, cause and the
result of a check belong together (`rejections_agree`).
-/

namespace Conform

/-! ## 1. Documents and messages -/

/-- A text that stands for nothing: an empty document, or one that is null. -/
def Markup.IsNothing (text : List Char) : Prop :=
  load text = .ok none ∨ ∃ d, load text = .ok (some d) ∧ d.graph.kind d.root = .null

/-- The only line of a rejection is its message. -/
def Rejection.IsPlain (r : Rejection) : Prop :=
  r.lines = [r.message]

namespace Schema

/-! ## 2. Who rejects, and with what -/

/-- **The four ways in which validation rejects.** -/
theorem validate_eq_rejected {s : Schema} {text : List Char} {r : Rejection}
    (h : s.validate text = .error (.rejected r)) :
    (Markup.load text = .error .malformed ∧ r = unparsedCollection true) ∨
    (Markup.IsNothing text ∧ r = unparsedCollection false) ∨
    (∃ d, Markup.load text = .ok (some d) ∧ r = notACollection) ∨
    ∃ d items lines, Markup.load text = .ok (some d) ∧ d.graph.object d.root = .list items ∧
      s.examineElements d.graph items = .ok lines ∧ lines ≠ [] ∧ r = violated { lines } := by
  rcases bind_eq_error.mp h with h | ⟨findings, hexamine, h⟩
  · rcases examine_eq_rejected h with hr | hr | hr
    · exact .inl hr
    · exact .inr (.inl hr)
    · exact .inr (.inr (.inl hr))
  · obtain ⟨d, items, lines, hload, hroot, hlines, rfl⟩ := examine_eq_ok hexamine
    unfold Findings.verdict at h
    split at h <;> cases h
    rename_i hsome
    refine .inr (.inr (.inr ⟨d, items, lines, hload, hroot, hlines, fun hnil => ?_, rfl⟩))
    rw [Report.hasLines_eq_false_iff.mpr hnil] at hsome
    cases hsome

/-- **The three ways in which compiling rejects.** -/
theorem compile_eq_rejected {text : List Char} {r : Rejection}
    (h : compile text = .error (.rejected r)) :
    (Markup.load text = .error .malformed ∧ r = unparsed true) ∨
    (Markup.IsNothing text ∧ r = unparsed false) ∨
    ∃ d rep, Markup.load text = .ok (some d) ∧ d.graph.kind d.root ≠ .null ∧
      check d.graph d.root = .ok rep ∧ rep.lines ≠ [] ∧ r = malformed rep := by
  unfold compile at h
  split at h
  · rename_i hload
    cases h
    exact .inl ⟨hload, rfl⟩
  · cases h
  · rename_i hload
    cases h
    exact .inr (.inl ⟨.inl hload, rfl⟩)
  · rename_i d hload
    split at h
    · rename_i hnull
      cases h
      exact .inr (.inl ⟨.inr ⟨d, hload, hnull⟩, rfl⟩)
    · rename_i hkind
      split at h
      · cases h
      · rename_i rep hcheck
        split at h
        · rename_i hsome
          cases h
          refine .inr (.inr ⟨d, rep, hload, hkind, hcheck, fun hnil => ?_, rfl⟩)
          rw [Report.hasLines_eq_false_iff.mpr hnil] at hsome
          cases hsome
        · split at h <;> cases h

/-! ## 3. What belongs together -/

theorem IsBlock.line_ne_nil {s : Schema} {g : Graph} {element : Ref} {block : List Text}
    (h : s.IsBlock g element block) : ∀ line ∈ block, line ≠ [] := by
  obtain ⟨dump, lines, -, -, -, rfl⟩ := h
  rw [List.forall_mem_cons, List.forall_mem_map]
  exact ⟨List.cons_ne_nil _ _, fun _ _ => List.cons_ne_nil _ _⟩

/-- No line about the elements of a collection is empty. -/
theorem line_ne_nil_of_examineElements {s : Schema} {g : Graph} {items : List Ref}
    {lines : List Text} (h : s.examineElements g items = .ok lines) :
    ∀ line ∈ lines, line ≠ [] := by
  obtain ⟨blocks, rfl, hblocks⟩ := examineElements_eq_ok h
  intro line hline
  obtain ⟨block, hblock, hmem⟩ := List.mem_flatten.mp hline
  obtain ⟨element, he⟩ := exists_isBlock_of_mem hblocks block hblock
  exact he.line_ne_nil line hmem

/-- A text from which nothing can be read is rejected, by validation and by compiling, with the
    message as the only line. -/
theorem rejected_of_unread {s : Schema} {text : List Char}
    (h : Markup.load text = .error .malformed ∨ Markup.IsNothing text) :
    (∃ r, s.validate text = .error (.rejected r) ∧ r.IsPlain) ∧
      ∃ r, compile text = .error (.rejected r) ∧ r.IsPlain := by
  rcases h with hload | hload | ⟨d, hload, hnull⟩
  · refine ⟨⟨unparsedCollection true, ?_, rfl⟩, unparsed true, ?_, rfl⟩
    · rw [validate, examine, hload]
      rfl
    · rw [compile, hload]
  · refine ⟨⟨unparsedCollection false, ?_, rfl⟩, unparsed false, ?_, rfl⟩
    · rw [validate, examine, hload]
      rfl
    · rw [compile, hload]
  · refine ⟨⟨unparsedCollection false, ?_, rfl⟩, unparsed false, ?_, rfl⟩
    · simp only [validate, examine, hload, hnull, if_true]
      rfl
    · simp only [compile, hload, hnull, if_true]

/-- A collection is rejected with at least one line, with the lines joined as its message, and with
    a cause exactly if the text is no document. -/
theorem agree_of_validate {s : Schema} {text : List Char} {r : Rejection}
    (h : s.validate text = .error (.rejected r)) :
    r.lines ≠ [] ∧ r.message ≠ [] ∧ r.message = Text.join (Text.ofChars ['\n']) r.lines ∧
      (r.unreadable = true ↔ Markup.load text = .error .malformed) := by
  rcases validate_eq_rejected h with ⟨hload, rfl⟩ | ⟨hload, rfl⟩ | ⟨d, hload, rfl⟩ |
    ⟨d, items, lines, hload, -, hlines, hne, rfl⟩
  · exact ⟨List.cons_ne_nil _ _, List.cons_ne_nil _ _, (List.intercalate_singleton ..).symm,
      iff_of_true rfl hload⟩
  · refine ⟨List.cons_ne_nil _ _, List.cons_ne_nil _ _, (List.intercalate_singleton ..).symm,
      iff_of_false Bool.false_ne_true fun hbad => ?_⟩
    rcases hload with hload | ⟨d, hload, -⟩ <;> cases hbad.symm.trans hload
  · exact ⟨List.cons_ne_nil _ _, List.cons_ne_nil _ _, (List.intercalate_singleton ..).symm,
      iff_of_false Bool.false_ne_true fun hbad => by cases hbad.symm.trans hload⟩
  · have hmessage : (violated { lines }).message = Text.join (Text.ofChars ['\n']) lines := rfl
    refine ⟨hne, ?_, hmessage, iff_of_false Bool.false_ne_true fun hbad => by
      cases hbad.symm.trans hload⟩
    rw [hmessage]
    exact Report.join_ne_nil hne (line_ne_nil_of_examineElements hlines)

/-- A schema is rejected with a cause exactly if the text is no document. If the text stands for
    something, the message is an introduction with at least one line under it. -/
theorem agree_of_compile {text : List Char} {r : Rejection}
    (h : compile text = .error (.rejected r)) :
    (r.unreadable = true ↔ Markup.load text = .error .malformed) ∧
      ∀ d, Markup.load text = .ok (some d) → d.graph.kind d.root ≠ .null →
        r.lines ≠ [] ∧ r.message = Text.ofString "Invalid schema:" ++
          r.lines.flatMap fun line => Text.ofChars ['\n'] ++ indentation ++ line := by
  rcases compile_eq_rejected h with ⟨hload, rfl⟩ | ⟨hload, rfl⟩ |
    ⟨d, rep, hload, -, -, hne, rfl⟩
  · exact ⟨iff_of_true rfl hload, fun d hd => by cases hload.symm.trans hd⟩
  · refine ⟨iff_of_false Bool.false_ne_true fun hbad => ?_, fun d hd hkind => ?_⟩
    · rcases hload with hload | ⟨d, hload, -⟩ <;> cases hbad.symm.trans hload
    · rcases hload with hload | ⟨d', hload, hnull⟩
      · cases hload.symm.trans hd
      · cases hload.symm.trans hd
        exact absurd hnull hkind
  · have hrender : (malformed rep).message = _ := Report.render_of_introduction
      (r := { rep with introduction := "Invalid schema:" }) (List.cons_ne_nil _ _) hne
    exact ⟨iff_of_false Bool.false_ne_true fun hbad => (by cases hbad.symm.trans hload),
      fun _ _ _ => ⟨hne, hrender⟩⟩

/-- **Validation, checking, messages and lines agree.** Checking fails exactly as validation does
    where that is no rejection; it finds a text valid, with neither lines nor a message, exactly if
    validation passes; and a rejection becomes a result with its lines and its message, which is the
    lines joined. A rejection has a cause exactly if the text is no document. The message about a
    schema that can be read is an introduction with its lines under it, and a text that cannot be
    read has the message as its only line. -/
theorem rejections_agree (s : Schema) (text : List Char) :
    (∀ f, s.result text = .error f ↔ s.validate text = .error (.faulted f)) ∧
    (s.validate text = .ok () ↔ s.result text = .ok ⟨true, [], []⟩) ∧
    (∀ result, s.result text = .ok result → (result.valid = true ↔ s.validate text = .ok ())) ∧
    (∀ r, s.validate text = .error (.rejected r) →
      s.result text = .ok ⟨false, r.lines, r.message⟩ ∧
      r.lines ≠ [] ∧ r.message ≠ [] ∧ r.message = Text.join (Text.ofChars ['\n']) r.lines ∧
      (r.unreadable = true ↔ Markup.load text = .error .malformed)) ∧
    (∀ r, compile text = .error (.rejected r) →
      (r.unreadable = true ↔ Markup.load text = .error .malformed) ∧
      ∀ d, Markup.load text = .ok (some d) → d.graph.kind d.root ≠ .null →
        r.lines ≠ [] ∧ r.message = Text.ofString "Invalid schema:" ++
          r.lines.flatMap fun line => Text.ofChars ['\n'] ++ indentation ++ line) ∧
    (Markup.load text = .error .malformed ∨ Markup.IsNothing text →
      (∃ r, s.validate text = .error (.rejected r) ∧ r.IsPlain) ∧
        ∃ r, compile text = .error (.rejected r) ∧ r.IsPlain) := by
  refine ⟨fun f => ?_, ?_, fun result hresult => ?_, fun r h => ⟨?_, agree_of_validate h⟩,
    fun r => agree_of_compile, rejected_of_unread⟩
  · rw [result]
    split <;> simp_all
  · rw [result]
    split <;> simp_all
  · rw [Schema.result] at hresult
    split at hresult <;> cases hresult <;> simp_all
  · rw [result, h]

/-- A list of one mapping, with a field that is not declared by `oneProperty`; no schema. -/
def undeclaredField : List Char := "- \x7bb: 1\x7d".toList

/-- A bracket that is not closed. -/
def openBracket : List Char := "[".toList

theorem undeclaredField_rejections_agree : ∃ r r' d,
    oneProperty.validate undeclaredField = .error (.rejected r) ∧
    r.message = Text.join (Text.ofChars ['\n']) r.lines ∧
    compile undeclaredField = .error (.rejected r') ∧
    Markup.load undeclaredField = .ok (some d) ∧ d.graph.kind d.root ≠ .null ∧
    r'.message = Text.ofString "Invalid schema:" ++
      (r'.lines.flatMap fun line => Text.ofChars ['\n'] ++ indentation ++ line) ∧
    Markup.load openBracket = .error .malformed ∧
    ∃ r'', compile openBracket = .error (.rejected r'') ∧ r''.IsPlain := by
  have loads : ((Markup.load undeclaredField).toOption.join.map fun d => d.graph.kind d.root) =
      some .array := by decide +kernel
  have unread : errorOf? (Markup.load openBracket) = some .malformed := by decide +kernel
  have rejects : errorOf? (oneProperty.validate undeclaredField) = some (.rejected
      ⟨.collection, "Malformed object:\n---\nb: 1\n\n  unknown field b:",
        ["Malformed object:\n---\nb: 1\n", "  unknown field b:"], false⟩) := by decide +kernel
  have refuses : errorOf? (compile undeclaredField) = some (.rejected
      ⟨.schema, "Invalid schema:\n  schema: should be of type Hash, but is of type Array",
        ["schema: should be of type Hash, but is of type Array"], false⟩) := by decide +kernel
  obtain ⟨d, hd, hkind⟩ := Option.map_eq_some_iff.mp loads
  have hload := eq_ok_of_join hd
  have hnull : d.graph.kind d.root ≠ .null := by
    rw [hkind]
    decide
  have hunread := errorOf?_eq_some_iff.mp unread
  have hr := errorOf?_eq_some_iff.mp rejects
  have hr' := errorOf?_eq_some_iff.mp refuses
  obtain ⟨-, -, -, validated, compiled, -⟩ := rejections_agree oneProperty undeclaredField
  obtain ⟨-, -, -, -, -, plain⟩ := rejections_agree oneProperty openBracket
  exact ⟨_, _, d, hr, (validated _ hr).2.2.2.1, hr', hload, hnull,
    ((compiled _ hr').2 d hload hnull).2, hunread, (plain (.inl hunread)).2⟩

end Schema

end Conform
