import Conform.Proofs.Markup.Keyed
import Conform.Proofs.Markup.Progress
import Conform.Proofs.Number.Numeral

/-!
# Where the faults of reading come from

Nearly everything that stops the reading of a text is a fault of the document as such. There are two
exceptions: an escape whose digits name no code point, and a version with too many digits
(`Misread`). The readers are gone through one by one: each fails as a document, or with the fault of
what stands in front of it (`readFault_of_tokensOf`). Composing nodes from tokens adds no fault but
those of the document (`composed_fails`).
-/

namespace Conform.Markup

/-- What may stand between the name of the version and the digits of one of its
    numbers. -/
def FrontsVersion (front : List Char) : Prop :=
  ∀ a ∈ front, a = ' ' ∨ a = '.' ∨ Pattern.isDigit a = true

/-- What is not as it should be in a text that may be a document: an escape names no code point, or
    a number of the version has too many digits. -/
inductive Misread (cs : List Char) : Fault → Prop where
  | escape {mark : Char} {ds : List Char} {f : Fault} (stands : '\\' :: mark :: ds <:+: cs)
      (width : escapeWidth? mark = some ds.length) (fails : numericEscape ds = .error f) :
      Misread cs f
  | version {front ds : List Char} (stands : "%YAML".toList ++ (front ++ ds) <:+: cs)
      (between : FrontsVersion front)
      (digits : ∀ d ∈ ds, Pattern.isDigit d = true) (long : Numeral.digitLimit < ds.length) :
      Misread cs .noSuchValue

/-- A fault of reading: of the document as such, or of what stands in some characters. -/
def ReadFault (cs : List Char) (f : Fault) : Prop :=
  f = .malformed ∨ Misread cs f

/-- A step whose only fault is that of a document. -/
abbrev FailsAsDocument {α : Type} (x : Except Fault α) : Prop :=
  Fails (· = .malformed) x

variable {α : Type} {x : Except Fault α} {c : Cursor} {cs ds : List Char} {f : Fault}

theorem Misread.mono (h : Misread cs f) (hcs : cs <:+: ds) : Misread ds f := by
  cases h with
  | escape hstands hwidth hfails => exact .escape (hstands.trans hcs) hwidth hfails
  | version hstands hbetween hdigits hlong =>
    exact .version (hstands.trans hcs) hbetween hdigits hlong

theorem ReadFault.mono (h : ReadFault cs f) (hcs : cs <:+: ds) : ReadFault ds f :=
  h.imp_right fun h => h.mono hcs

theorem FailsAsDocument.reading (h : FailsAsDocument x) : Fails (ReadFault cs) x :=
  h.mono fun _ => .inl

/-- A reader that went on behind some characters. -/
theorem fails_behind (h : Fails (ReadFault cs) x) (hcs : cs <:+: ds) : Fails (ReadFault ds) x :=
  h.mono fun _ h => h.mono hcs

/-! ## 1. Within a line -/

theorem readName_fails (c : Cursor) : FailsAsDocument (readName c) := by
  unfold readName
  dsimp only
  exact .ite (fun _ => trivial) fun _ => rfl

theorem readTagText_fails (bytes : List UInt8) (cs : List Char) :
    FailsAsDocument (readTagText bytes cs) := by
  induction hn : cs.length using Nat.strongRecOn generalizing cs bytes with
  | ind n ih =>
    cases cs with
    | nil =>
      rw [readTagText_nil]
      cases String.fromUTF8? ⟨bytes.reverse.toArray⟩ with
      | none => exact rfl
      | some s => exact trivial
    | cons a cs =>
      by_cases ha : a = '%'
      · subst ha
        rw [readTagText_percent]
        cases hescape : escapedByte? cs with
        | none => exact rfl
        | some e =>
          obtain ⟨a, b, x, y, rfl, -⟩ := escapedByte?_eq_some_iff.mp hescape
          exact ih e.2.length (by simp at hn; omega) _ _ rfl
      · rw [readTagText_cons ha]
        cases String.fromUTF8? ⟨bytes.reverse.toArray⟩ with
        | none => exact rfl
        | some s =>
          refine .ite (fun _ => ?_) fun _ => trivial
          have hmore := ih cs.length (by simp at hn; omega) [] cs rfl
          cases hread : readTagText [] cs with
          | error f => exact hmore.of_eq_error hread
          | ok r => exact trivial

theorem readTagRest_fails (c : Cursor) : FailsAsDocument (readTagRest c) :=
  Fails.bind (readTagText_fails [] c.rest) fun _ _ => .ite (fun _ => rfl) fun _ => trivial

theorem readHandle_fails (c : Cursor) : FailsAsDocument (readHandle c) := by
  unfold readHandle
  dsimp only
  exact .ite (fun _ => .ite (fun _ => trivial) fun _ => .ite (fun _ => trivial) fun _ => rfl)
    fun _ => rfl

theorem readTagForm_fails (c : Cursor) : FailsAsDocument (readTagForm c) := by
  unfold readTagForm
  refine .ite (fun _ => ?_) fun _ => .ite (fun _ => trivial) fun _ => ?_
  · exact Fails.bind (readTagRest_fails _) fun _ _ => .ite (fun _ => trivial) fun _ => rfl
  · refine Fails.bind ?_ fun _ _ => Fails.bind (readTagRest_fails _) fun _ _ => trivial
    exact .ite (fun _ => readHandle_fails c) fun _ => trivial

theorem readTag_fails (c : Cursor) : FailsAsDocument (readTag c) :=
  Fails.bind (readTagForm_fails c) fun _ _ => .ite (fun _ => trivial) fun _ => rfl

theorem skipRestOfLine_fails (c : Cursor) : FailsAsDocument (skipRestOfLine c) := by
  unfold skipRestOfLine
  exact .ite (fun _ => trivial) fun _ => rfl

/-! ## 2. Directives -/

theorem isSome_plainDigit? (d : Char) : (plainDigit? d).isSome = Pattern.isDigit d := by
  unfold plainDigit? Pattern.isDigit
  split <;> simp_all

theorem isDigit_of_mem_takeWhile {d : Char}
    (h : d ∈ cs.takeWhile fun d => (plainDigit? d).isSome) : Pattern.isDigit d = true :=
  (isSome_plainDigit? d).symm.trans (List.all_eq_true.mp List.all_takeWhile d h)

/-- A number of a version that is not read has too many digits. -/
theorem readVersionNumber_fails {front : List Char} (hfront : FrontsVersion front) (c : Cursor) :
    Fails (ReadFault ("%YAML".toList ++ (front ++ c.rest))) (readVersionNumber c) := by
  unfold readVersionNumber Cursor.takeWhile
  dsimp only
  refine .ite (fun _ => .inl rfl) fun hempty => ?_
  cases hnumber : Numeral.natural? 10 (c.rest.takeWhile fun d => (plainDigit? d).isSome) with
  | some n => trivial
  | none =>
    have hprefix := List.takeWhile_prefix (l := c.rest) fun d => (plainDigit? d).isSome
    have hstands := (List.prefix_append_right_inj "%YAML".toList).mpr
      ((List.prefix_append_right_inj front).mpr hprefix)
    refine .inr (.version hstands.isInfix hfront (fun _ => isDigit_of_mem_takeWhile) ?_)
    rw [Numeral.natural?, mapM_baseDigit? fun _ => isDigit_of_mem_takeWhile] at hnumber
    simpa [hempty] using hnumber

/-- A number of a version that is read is a run of digits. -/
theorem readVersionNumber_eq_ok {n : Nat} {after : Cursor}
    (h : readVersionNumber c = .ok (n, after)) :
    ∃ ds, c.rest = ds ++ after.rest ∧ ∀ d ∈ ds, Pattern.isDigit d = true := by
  refine ⟨c.rest.takeWhile fun d => (plainDigit? d).isSome, ?_, fun _ => isDigit_of_mem_takeWhile⟩
  unfold readVersionNumber Cursor.takeWhile at h
  dsimp only at h
  split at h
  · cases h
  · split at h <;> cases h
    exact List.takeWhile_append_dropWhile.symm

theorem readVersion_fails (c : Cursor) :
    Fails (ReadFault ("%YAML".toList ++ c.rest)) (readVersion c) := by
  have hsplit : c.rest = c.rest.takeWhile (· = ' ') ++ c.skipSpaces.rest :=
    List.takeWhile_append_dropWhile.symm
  have hspaces : FrontsVersion (c.rest.takeWhile (· = ' ')) := fun a ha =>
    .inl (of_decide_eq_true (List.all_eq_true.mp List.all_takeWhile a ha))
  generalize c.rest.takeWhile (· = ' ') = spaces at hsplit hspaces
  rw [hsplit]
  refine Fails.bind (readVersionNumber_fails hspaces c.skipSpaces) fun ⟨major, after⟩ hmajor => ?_
  obtain ⟨ds, hds, hdigits⟩ := readVersionNumber_eq_ok hmajor
  refine .ite (fun hpoint => ?_) fun _ => .inl rfl
  obtain ⟨rest, hrest⟩ := List.head?_eq_some_iff.mp hpoint
  have hfront : FrontsVersion (spaces ++ (ds ++ ['.'])) := by
    refine List.forall_mem_append.mpr ⟨hspaces, List.forall_mem_append.mpr ⟨fun a ha => ?_, ?_⟩⟩
    · exact .inr (.inr (hdigits a ha))
    · exact List.forall_mem_singleton.mpr (.inr (.inl rfl))
  have hsecond := readVersionNumber_fails hfront (after.drop 1)
  have hbehind : (after.drop 1).rest = rest := by
    rw [Cursor.drop, Cursor.past, hrest]
    rfl
  rw [hbehind, List.append_assoc, List.append_assoc, List.singleton_append, ← hrest,
    ← hds] at hsecond
  exact Fails.bind hsecond fun _ _ => .ite (fun _ => trivial) fun _ => .inl rfl

theorem readHandleDirective_fails (c : Cursor) : FailsAsDocument (readHandleDirective c) :=
  Fails.bind (readHandle_fails _) fun _ _ =>
    .ite (fun _ => Fails.bind (readTagRest_fails _) fun _ _ =>
      .ite (fun _ => trivial) fun _ => rfl) fun _ => rfl

theorem readDirectiveNamed_fails (name : List Char) (c : Cursor) :
    Fails (ReadFault ('%' :: (name ++ c.rest))) (readDirectiveNamed name c) := by
  unfold readDirectiveNamed
  refine .ite (fun hname => ?_) fun _ => .ite (fun _ => ?_) fun _ => trivial
  · rw [hname]
    exact readVersion_fails c
  · exact (readHandleDirective_fails c).reading

/-- A directive is read behind its percent sign. -/
theorem readDirective_fails (c : Cursor) :
    Fails (ReadFault ('%' :: c.rest)) (readDirective c) := by
  have hsplit : c.rest = c.rest.takeWhile isNameChar ++ (c.takeWhile isNameChar).2.rest :=
    List.takeWhile_append_dropWhile.symm
  have hnamed := readDirectiveNamed_fails (c.takeWhile isNameChar).1 (c.takeWhile isNameChar).2
  rw [show (c.takeWhile isNameChar).1 = c.rest.takeWhile isNameChar from rfl, ← hsplit] at hnamed
  unfold readDirective
  exact .ite (fun _ => .inl rfl) fun _ => Fails.bind hnamed fun _ _ =>
    Fails.bind (skipRestOfLine_fails _).reading fun _ _ => trivial

/-! ## 3. Scalars -/

theorem readSingleFrom_fails (gap : Gap) (reversed : Text) (cs : List Char) (p : Place) :
    FailsAsDocument (readSingleFrom gap reversed cs p) := by
  fun_induction readSingleFrom gap reversed cs p with
  | case1 | case6 => exact rfl
  | case3 => trivial
  | case2 | case4 | case5 | case7 | case8 =>
    rename_i ih
    exact ih

/-- The digits of an escape that are still to come name no code point with those that have been
    read. -/
def EndsEscape (missing : Nat) (digits cs : List Char) (f : Fault) : Prop :=
  missing ≠ 0 ∧ ∃ ds, ds <+: cs ∧ ds.length = missing ∧
    numericEscape (digits.reverse ++ ds) = .error f

/-- **Between double quotes, what fails but as a document is an escape.** -/
theorem readDoubleFrom_fails (missing : Nat) (digits : List Char) (gap : Gap) (reversed : Text)
    (cs : List Char) (p : Place) :
    Fails (fun f => ReadFault cs f ∨ EndsEscape missing digits cs f)
      (readDoubleFrom missing digits gap reversed cs p) := by
  -- outside of an escape, reading goes on behind some characters
  have outside : ∀ (taken : List Char) {rest : List Char} {y : Except Fault (Text × Cursor)}
      {E : Fault → Prop},
      Fails (fun f => ReadFault rest f ∨ EndsEscape 0 [] rest f) y →
      Fails (fun f => ReadFault (taken ++ rest) f ∨ E f) y := fun _ _ _ _ h =>
    h.mono fun f hf =>
      .inl ((hf.resolve_right fun h => h.1 rfl).mono (List.suffix_append _ _).isInfix)
  fun_induction readDoubleFrom missing digits gap reversed cs p with
  | case1 | case2 | case8 | case10 | case13 | case15 | case17 => exact .inl (.inl rfl)
  | case5 => trivial
  | case3 digits gap reversed a cs p hdigit ih =>
    cases hescape : numericEscape (a :: digits).reverse with
    | error f =>
      refine .inr ⟨Nat.succ_ne_zero 0, [a], List.prefix_append [a] cs, rfl, ?_⟩
      rwa [List.reverse_cons] at hescape
    | ok q => exact outside [_] (ih q)
  | case4 digits gap reversed a cs p more hdigit hmore ih =>
    refine ih.mono fun f hf => hf.imp (fun h => h.mono (List.suffix_cons a cs).isInfix) ?_
    rintro ⟨-, ds, hprefix, hlength, hfails⟩
    refine ⟨Nat.succ_ne_zero more, a :: ds, List.cons_prefix_cons.mpr ⟨rfl, hprefix⟩,
      congrArg (· + 1) hlength, ?_⟩
    rwa [List.reverse_cons, List.append_assoc] at hfails
  | case12 digits gap reversed p _ mark cs width hwidth hletter _ _ _ q ih =>
    refine ih.mono fun f hf => .inl ?_
    rcases hf with hf | ⟨-, ds, hprefix, hlength, hfails⟩
    · exact hf.mono (List.suffix_append ['\\', mark] cs).isInfix
    · have hstands : '\\' :: mark :: ds <+: '\\' :: mark :: cs :=
        (List.prefix_append_right_inj ['\\', mark]).mpr hprefix
      exact .inr (.escape hstands.isInfix (hlength ▸ hwidth) hfails)
  | case6 | case7 | case9 | case18 =>
    rename_i ih
    exact outside [_] ih
  | case11 | case16 =>
    rename_i ih
    exact outside [_, _] ih
  | case14 =>
    rename_i ih
    exact outside [_, _, _] ih

theorem readQuoted_fails (double : Bool) (c : Cursor) :
    Fails (ReadFault c.rest) (readQuoted double c) := by
  have hinside : (c.drop 1).rest <:+: c.rest := (c.rest_drop_suffix 1).isInfix
  unfold readQuoted
  refine .ite (fun _ => ?_) fun _ => (readSingleFrom_fails _ _ _ _).reading
  exact (readDoubleFrom_fails 0 [] .none [] _ _).mono fun _ hf =>
    (hf.resolve_right fun h => h.1 rfl).mono hinside

theorem headerOf_fails (cs : List Char) : FailsAsDocument (headerOf cs) := by
  unfold headerOf
  repeat' split
  all_goals trivial

theorem readBlock_fails (folded : Bool) (parent : Int) (c : Cursor) :
    FailsAsDocument (readBlock folded parent c) := by
  have hheader : FailsAsDocument (readBlockHeader (c.drop 1)) :=
    Fails.bind (headerOf_fails _) fun _ _ =>
      .ite (fun _ => Fails.bind (skipRestOfLine_fails _) fun _ _ => trivial) fun _ => rfl
  exact Fails.bind hheader fun _ _ => trivial

/-! ## 4. Layout -/

namespace Layout

variable {s : Layout}

theorem dropCandidate_fails (s : Layout) : FailsAsDocument s.dropCandidate := by
  unfold dropCandidate
  split
  · exact .ite (fun _ => rfl) fun _ => trivial
  · trivial

theorem noteCandidate_fails (s : Layout) : FailsAsDocument s.noteCandidate := by
  unfold noteCandidate
  exact .ite (fun _ => Fails.bind (dropCandidate_fails s) fun _ _ => trivial) fun _ => trivial

theorem dropStale_fails (s : Layout) : FailsAsDocument s.dropStale := by
  unfold dropStale
  exact .ite (fun _ => rfl) fun _ => trivial

theorem openBlock_fails (s : Layout) (t : Token) : FailsAsDocument (s.openBlock t) := by
  unfold openBlock
  exact .ite (fun _ => trivial) fun _ => .ite (fun _ => rfl) fun _ => trivial

theorem toValue_fails (s : Layout) : FailsAsDocument s.toValue := by
  unfold toValue
  split
  · trivial
  · exact Fails.bind (openBlock_fails s _) fun _ _ => trivial

/-- A directive is read at its percent sign. -/
theorem takeDirective_fails {rest : List Char} (h : s.cursor.rest = '%' :: rest) :
    Fails (ReadFault s.cursor.rest) s.takeDirective := by
  refine Fails.bind (dropCandidate_fails _).reading fun s₁ h₁ => ?_
  have hcursor : s₁.cursor = s.cursor := (cursor_dropCandidate h₁).trans (cursor_unwind s (-1))
  have hrest : '%' :: (s₁.cursor.drop 1).rest = s.cursor.rest := by
    rw [hcursor, Cursor.drop, Cursor.past, h]
    rfl
  have hread := readDirective_fails (s₁.cursor.drop 1)
  rw [hrest] at hread
  exact Fails.bind hread fun _ _ => trivial

theorem takeQuoted_fails (s : Layout) (double : Bool) :
    Fails (ReadFault s.cursor.rest) (s.takeQuoted double) := by
  refine Fails.bind (noteCandidate_fails s).reading fun s₁ h₁ => ?_
  rw [← cursor_noteCandidate h₁]
  exact Fails.bind (readQuoted_fails double s₁.cursor) fun _ _ => trivial

theorem takeEnd_fails (s : Layout) : FailsAsDocument s.takeEnd :=
  Fails.bind (dropCandidate_fails _) fun _ _ => trivial

theorem takeMarker_fails (s : Layout) (t : Token) : FailsAsDocument (s.takeMarker t) :=
  Fails.bind (dropCandidate_fails _) fun _ _ => trivial

theorem takeFlowStart_fails (s : Layout) (t : Token) : FailsAsDocument (s.takeFlowStart t) :=
  Fails.bind (noteCandidate_fails s) fun _ _ => trivial

theorem takeFlowEnd_fails (s : Layout) (t : Token) : FailsAsDocument (s.takeFlowEnd t) :=
  Fails.bind (dropCandidate_fails s) fun _ _ => .ite (fun _ => rfl) fun _ => trivial

theorem takeFlowEntry_fails (s : Layout) : FailsAsDocument s.takeFlowEntry :=
  Fails.bind (dropCandidate_fails s) fun _ _ => trivial

theorem takeBlockEntry_fails (s : Layout) : FailsAsDocument s.takeBlockEntry :=
  Fails.bind (openBlock_fails s _) fun s₁ _ =>
    Fails.bind (dropCandidate_fails s₁) fun _ _ => trivial

theorem takeKey_fails (s : Layout) : FailsAsDocument s.takeKey :=
  Fails.bind (openBlock_fails s _) fun s₁ _ =>
    Fails.bind (dropCandidate_fails s₁) fun _ _ => trivial

theorem takeValue_fails (s : Layout) : FailsAsDocument s.takeValue :=
  Fails.bind (toValue_fails s) fun _ _ => trivial

theorem takeName_fails (s : Layout) (t : List Char → Token) : FailsAsDocument (s.takeName t) :=
  Fails.bind (noteCandidate_fails s) fun _ _ => Fails.bind (readName_fails _) fun _ _ => trivial

theorem takeTag_fails (s : Layout) : FailsAsDocument s.takeTag :=
  Fails.bind (noteCandidate_fails s) fun _ _ => Fails.bind (readTag_fails _) fun _ _ => trivial

theorem takeBlock_fails (s : Layout) (folded : Bool) : FailsAsDocument (s.takeBlock folded) :=
  Fails.bind (dropCandidate_fails s) fun _ _ =>
    Fails.bind (readBlock_fails folded _ _) fun _ _ => trivial

theorem takePlain_fails (s : Layout) : FailsAsDocument s.takePlain :=
  Fails.bind (noteCandidate_fails s) fun _ _ => trivial

/-- **What a token fails on stands in front.** -/
theorem takeToken_fails (s : Layout) : Fails (ReadFault s.cursor.rest) s.takeToken := by
  unfold takeToken
  split
  · exact (takeEnd_fails s).reading
  · rename_i a rest hrest
    rw [← hrest]
    refine .ite (fun hmark => ?_) fun _ => ?_
    · have hpercent : s.cursor.rest = '%' :: rest := by
        rw [hrest, of_decide_eq_true (Bool.and_eq_true_iff.mp hmark).1]
      exact takeDirective_fails hpercent
    refine .ite (fun _ => (takeMarker_fails s _).reading) fun _ => ?_
    refine .ite (fun _ => (takeFlowStart_fails s _).reading) fun _ => ?_
    refine .ite (fun _ => (takeFlowStart_fails s _).reading) fun _ => ?_
    refine .ite (fun _ => (takeFlowEnd_fails s _).reading) fun _ => ?_
    refine .ite (fun _ => (takeFlowEnd_fails s _).reading) fun _ => ?_
    refine .ite (fun _ => (takeFlowEntry_fails s).reading) fun _ => ?_
    refine .ite (fun _ => (takeBlockEntry_fails s).reading) fun _ => ?_
    refine .ite (fun _ => (takeKey_fails s).reading) fun _ => ?_
    refine .ite (fun _ => (takeValue_fails s).reading) fun _ => ?_
    refine .ite (fun _ => (takeName_fails s _).reading) fun _ => ?_
    refine .ite (fun _ => (takeName_fails s _).reading) fun _ => ?_
    refine .ite (fun _ => (takeTag_fails s).reading) fun _ => ?_
    refine .ite (fun _ => (takeBlock_fails s _).reading) fun _ => ?_
    refine .ite (fun _ => (takeBlock_fails s _).reading) fun _ => ?_
    refine .ite (fun _ => takeQuoted_fails s _) fun _ => ?_
    refine .ite (fun _ => takeQuoted_fails s _) fun _ => ?_
    exact .ite (fun _ => (takePlain_fails s).reading) fun _ => .inl rfl

theorem step_fails (s : Layout) : Fails (ReadFault s.cursor.rest) s.step := by
  refine Fails.bind (dropStale_fails _).reading fun s₁ h₁ => ?_
  refine fails_behind (takeToken_fails _) ?_
  rw [cursor_unwind, cursor_dropStale h₁]
  exact (rest_toNextToken_suffix s).isInfix

end Layout

/-! ## 5. The whole source -/

theorem readFault_of_tokensFrom : ∀ {n : Nat} {s : Layout}, s.cursor.rest.length < n →
    (tokensFrom n s).fault = some f → ReadFault s.cursor.rest f
  | n + 1, s, hn, h => by
      rw [tokensFrom] at h
      cases h₁ : s.dropStale with
      | error f =>
        rw [h₁] at h
        cases h
        exact .inl ((Layout.dropStale_fails s).of_eq_error h₁)
      | ok s₁ =>
        rw [h₁] at h
        dsimp only at h
        rw [← Layout.cursor_dropStale h₁]
        cases h₂ : s₁.step with
        | error f =>
          rw [h₂] at h
          cases h
          exact (Layout.step_fails s₁).of_eq_error h₂
        | ok s₂ =>
          rw [h₂] at h
          dsimp only at h
          split at h
          · cases h
          · rename_i hnot
            rcases Layout.step_advances h₂ with hend | ⟨hsuffix, hlt⟩
            · obtain ⟨tokens, htokens⟩ := List.head?_eq_some_iff.mp hend
              exact absurd htokens (hnot tokens)
            · rw [Layout.cursor_dropStale h₁] at hlt
              exact (readFault_of_tokensFrom (by omega) h).mono hsuffix.isInfix

/-- **What stops the reading of a text is a fault of the document or stands in the text.** -/
theorem readFault_of_tokensOf {text : List Char} (h : (tokensOf text).fault = some f) :
    ReadFault text f := by
  have hstart : (Layout.start text).cursor.rest <:+ text := by
    unfold Layout.start
    dsimp only
    split
    · exact Cursor.rest_drop_suffix ⟨text, {}⟩ 1
    · exact List.suffix_refl text
  exact (readFault_of_tokensFrom (Nat.lt_succ_of_le hstart.length_le) h).mono hstart.isInfix

/-! ## 6. Composing -/

namespace Composition

variable {role : Role} {parent : Option NodeId} {props : Properties} {t : Token}
  {below : List Expect}

theorem fullTag?_fails (c : Composition) (props : Properties) :
    FailsAsDocument (c.fullTag? props) := by
  unfold fullTag?
  repeat' split
  all_goals trivial

theorem add_fails (c : Composition) (parent : Option NodeId) (props : Properties) (d : Draft) :
    FailsAsDocument (c.add parent props d) := by
  unfold add
  dsimp only
  split
  · trivial
  · exact .ite (fun _ => rfl) fun _ => trivial

/-- A node is added when its tag has been looked up. -/
theorem adding_fails (c : Composition) (parent : Option NodeId) (props : Properties)
    (d : Option (List Char) → Draft) (k : NodeId × Composition → Composition) :
    FailsAsDocument (c.fullTag? props >>= fun full =>
      c.add parent props (d full) >>= fun r => pure (k r)) :=
  Fails.bind (fullTag?_fails c props) fun _ _ => Fails.bind (add_fails c _ _ _) fun _ _ => trivial

theorem addBare_fails (c : Composition) (parent : Option NodeId) (props : Properties) :
    FailsAsDocument (c.addBare parent props) :=
  adding_fails c parent props _ _

/-- A token that is taken as a node, or as the start of one, fails as a document. -/
theorem begin?_fails (c : Composition) {r : Except Fault Composition}
    (h : c.begin? role parent props t below = some r) : FailsAsDocument r := by
  -- behind an anchor or a tag the properties may be complete
  have complete : ∀ (b : Bool) (props : Properties) (e : Expect), FailsAsDocument (do
      if b then let _ ← c.fullTag? props
      pure (c.expect (e :: below))) := fun b props _ => by
    cases b with
    | false => trivial
    | true => exact Fails.bind (fullTag?_fails c props) fun _ _ => trivial
  unfold begin? at h
  dsimp only at h
  split at h
  · cases h
    exact adding_fails c parent props _ _
  · cases h
    exact adding_fails c parent props _ _
  · cases h
    exact adding_fails c parent props _ _
  · split at h <;> cases h
    exact adding_fails c parent props _ _
  · split at h <;> cases h
    exact adding_fails c parent props _ _
  · split at h <;> cases h
    exact adding_fails c parent props _ _
  · split at h <;> cases h
    split <;> trivial
  · split at h <;> cases h
    exact complete _ _ _
  · split at h <;> cases h
    exact complete _ _ _
  · cases h

theorem direct_fails (c : Composition) (next : Bool → Expect) (version : Bool) (d : Directive) :
    FailsAsDocument (c.direct next version d) := by
  cases d with
  | version major minor => exact .ite (fun _ => rfl) fun _ => trivial
  | handle handle full => exact .ite (fun _ => rfl) fun _ => trivial
  | other => trivial

theorem inMapping_fails (c : Composition) (id : NodeId) (t : Token) (below : List Expect) :
    FailsAsDocument (c.inMapping id t below) := by
  unfold inMapping
  split <;> trivial

theorem inFlowMapping_fails (c : Composition) (id : NodeId) (t : Token) (below : List Expect) :
    FailsAsDocument (c.inFlowMapping id t below) := by
  unfold inFlowMapping
  split <;> trivial

theorem beginOr_fails (c : Composition) (role : Role) (parent : Option NodeId) (t : Token)
    (below : List Expect) : FailsAsDocument (c.beginOr role parent t below) := by
  unfold beginOr
  cases h : c.begin? role parent {} t below with
  | none => exact rfl
  | some r => exact begin?_fails c h

/-- **A token that cannot be taken is a fault of the document.** -/
theorem take_fails (t : Token) (es : List Expect) (c : Composition) :
    FailsAsDocument (take t es c) := by
  fun_induction take t es c
  case case20 hbegin => exact begin?_fails _ hbegin
  case case21 ih => exact Fails.bind (addBare_fails _ _ _) fun c _ => ih c
  all_goals first
    | trivial
    | assumption
    | exact direct_fails _ _ _ _
    | exact inMapping_fails _ _ _ _
    | exact inFlowMapping_fails _ _ _ _
    | exact beginOr_fails _ _ _ _ _

theorem feedAll_fails : ∀ (tokens : List Token) (c : Composition),
    FailsAsDocument (tokens.foldlM feed c)
  | [], _ => trivial
  | t :: tokens, c => by
      rw [List.foldlM_cons]
      exact Fails.bind (take_fails t c.expected c) fun c _ => feedAll_fails tokens c

/-- **Composing fails as a document, or with the fault that stopped reading.** -/
theorem compose_fails (tokens : List Token) (fault : Option Fault) :
    Fails (fun f => f = .malformed ∨ fault = some f) (compose tokens fault) := by
  refine Fails.bind ((feedAll_fails tokens {}).mono fun _ => .inl) fun c _ => ?_
  cases fault with
  | some f => exact .inr rfl
  | none => cases c.root <;> trivial

end Composition

/-- **Where a text is not composed, it is no document or is misread.** -/
theorem composed_fails (text : List Char) : Fails (ReadFault text) (composed text) := by
  unfold composed
  refine .ite (fun _ => ?_) fun _ => .inl rfl
  refine Fails.mono (Composition.compose_fails _ _) fun f hf => ?_
  exact hf.elim .inl readFault_of_tokensOf

end Conform.Markup
