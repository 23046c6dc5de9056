import Conform.Markup.Load
import Conform.Proofs.Markup.PlainScalars

/-!
# The same tokens with plain line ends

Every operation on a layout, and so every step of reading, makes of the layout with plain line ends
what it makes of the layout as it is (`step_alike`). The run over plain line ends may have fewer
characters to read, but the number of steps is never what stops a run. So both runs come to the same
tokens (`tokensOf_plainLines`), and to the same document (`load_plainLines`).
-/

namespace Conform.Markup

/-! ## 1. Layouts -/

namespace Layout

variable {s : Layout}

/-- The layout of the run over plain line ends. -/
def plain (s : Layout) : Layout :=
  s.moveTo s.cursor.plain

theorem dropCandidate_alike (s : Layout) :
    s.plain.dropCandidate = s.dropCandidate.map plain := by
  unfold dropCandidate
  rw [show s.plain.candidate? = s.candidate? from rfl]
  split
  · split <;> rfl
  · rfl

theorem noteCandidate_alike (s : Layout) :
    s.plain.noteCandidate = s.noteCandidate.map plain := by
  unfold noteCandidate
  rw [show s.plain.keyAllowed = s.keyAllowed from rfl]
  split
  · exact bind_map (dropCandidate_alike s) fun s₁ _ => rfl
  · rfl

theorem unwind_alike (s : Layout) (column : Int) :
    s.plain.unwind column = (s.unwind column).plain := by
  unfold unwind
  rw [show s.plain.inFlow = s.inFlow from rfl]
  split <;> rfl

theorem openBlock_alike (s : Layout) (t : Token) :
    s.plain.openBlock t = (s.openBlock t).map plain := by
  unfold openBlock
  rw [show s.plain.inFlow = s.inFlow from rfl, show s.plain.keyAllowed = s.keyAllowed from rfl]
  split
  · rfl
  · split
    · rfl
    · dsimp only
      rw [show s.plain.opens s.plain.cursor.place.column = s.opens s.cursor.place.column from rfl]
      split <;> rfl

theorem makeKey_alike (s : Layout) (k : Candidate) : s.plain.makeKey k = (s.makeKey k).plain := by
  unfold makeKey
  dsimp only
  rw [apply_ite plain]
  rfl

theorem toValue_alike (s : Layout) : s.plain.toValue = s.toValue.map plain := by
  unfold toValue
  rw [show s.plain.candidate? = s.candidate? from rfl]
  split
  · exact congrArg Except.ok (makeKey_alike s _)
  · exact bind_map (openBlock_alike s _) fun s₁ _ => rfl

theorem dropStale_alike (s : Layout) : s.plain.dropStale = s.dropStale.map plain := by
  unfold dropStale
  dsimp only
  rw [apply_ite (Except.map plain)]
  rfl

theorem toNextToken_alike (s : Layout) : s.plain.toNextToken = s.toNextToken.plain := by
  unfold toNextToken
  rw [show skipTrivia false false s.plain.cursor.rest s.plain.cursor.place = _ from
    skipTrivia_plainLines s.cursor.rest false false s.cursor.place]
  rfl

/-! ## 2. Tokens -/

theorem takeEnd_alike (s : Layout) : s.plain.takeEnd = s.takeEnd.map plain := by
  unfold takeEnd
  rw [unwind_alike]
  exact bind_map (dropCandidate_alike _) fun s₁ _ => rfl

/-- The cursor behind some characters, of which none ends a line, in the layout that an operation
    leaves. -/
theorem drop_plain_of_cursor {s₁ : Layout} (hcursor : s₁.cursor = s.cursor) {n : Nat}
    (h : ∀ a ∈ s.cursor.rest.take n, isBreak a = false) :
    s₁.plain.cursor.drop n = (s₁.cursor.drop n).plain :=
  Cursor.drop_plain (by rwa [hcursor])

theorem takeDirective_alike (h : s.cursor.Inline) :
    s.plain.takeDirective = s.takeDirective.map plain := by
  unfold takeDirective
  rw [unwind_alike]
  refine bind_map (dropCandidate_alike _) fun s₁ h₁ => ?_
  have hcursor : s₁.cursor = s.cursor := (cursor_dropCandidate h₁).trans (cursor_unwind s (-1))
  rw [drop_plain_of_cursor hcursor fun _ => h.of_mem_take]
  exact bind_map (readDirective_plain _) fun ⟨d, after⟩ _ => rfl

theorem takeMarker_alike {t : Token} (h : ∀ a ∈ s.cursor.rest.take 3, isBreak a = false) :
    s.plain.takeMarker t = (s.takeMarker t).map plain := by
  unfold takeMarker
  rw [unwind_alike]
  refine bind_map (dropCandidate_alike _) fun s₁ h₁ => ?_
  have hcursor : s₁.cursor = s.cursor := (cursor_dropCandidate h₁).trans (cursor_unwind s (-1))
  rw [drop_plain_of_cursor hcursor h]
  rfl

theorem takeFlowStart_alike {t : Token} (h : s.cursor.Inline) :
    s.plain.takeFlowStart t = (s.takeFlowStart t).map plain := by
  unfold takeFlowStart
  refine bind_map (noteCandidate_alike s) fun s₁ h₁ => ?_
  rw [drop_plain_of_cursor (cursor_noteCandidate h₁) fun _ => h.of_mem_take]
  rfl

theorem takeFlowEnd_alike {t : Token} (h : s.cursor.Inline) :
    s.plain.takeFlowEnd t = (s.takeFlowEnd t).map plain := by
  unfold takeFlowEnd
  refine bind_map (dropCandidate_alike s) fun s₁ h₁ => ?_
  rw [drop_plain_of_cursor (cursor_dropCandidate h₁) fun _ => h.of_mem_take,
    show s₁.plain.inFlow = s₁.inFlow from rfl]
  split <;> rfl

theorem takeFlowEntry_alike (h : s.cursor.Inline) :
    s.plain.takeFlowEntry = s.takeFlowEntry.map plain := by
  unfold takeFlowEntry
  refine bind_map (dropCandidate_alike s) fun s₁ h₁ => ?_
  rw [drop_plain_of_cursor (cursor_dropCandidate h₁) fun _ => h.of_mem_take]
  rfl

theorem takeBlockEntry_alike (h : s.cursor.Inline) :
    s.plain.takeBlockEntry = s.takeBlockEntry.map plain := by
  unfold takeBlockEntry
  refine bind_map (openBlock_alike s _) fun s₁ h₁ => bind_map (dropCandidate_alike s₁) fun s₂ h₂ => ?_
  rw [drop_plain_of_cursor ((cursor_dropCandidate h₂).trans (cursor_openBlock h₁))
    fun _ => h.of_mem_take]
  rfl

theorem takeKey_alike (h : s.cursor.Inline) : s.plain.takeKey = s.takeKey.map plain := by
  unfold takeKey
  refine bind_map (openBlock_alike s _) fun s₁ h₁ => bind_map (dropCandidate_alike s₁) fun s₂ h₂ => ?_
  rw [drop_plain_of_cursor ((cursor_dropCandidate h₂).trans (cursor_openBlock h₁))
    fun _ => h.of_mem_take]
  rfl

theorem takeValue_alike (h : s.cursor.Inline) : s.plain.takeValue = s.takeValue.map plain := by
  unfold takeValue
  refine bind_map (toValue_alike s) fun s₁ h₁ => ?_
  rw [drop_plain_of_cursor (cursor_toValue h₁) fun _ => h.of_mem_take]
  rfl

theorem takeName_alike {t : List Char → Token} (h : s.cursor.Inline) :
    s.plain.takeName t = (s.takeName t).map plain := by
  unfold takeName
  refine bind_map (noteCandidate_alike s) fun s₁ h₁ => ?_
  rw [drop_plain_of_cursor (cursor_noteCandidate h₁) fun _ => h.of_mem_take]
  exact bind_map (readName_plain _) fun ⟨name, after⟩ _ => rfl

theorem takeTag_alike (h : s.cursor.Inline) : s.plain.takeTag = s.takeTag.map plain := by
  unfold takeTag
  refine bind_map (noteCandidate_alike s) fun s₁ h₁ => ?_
  rw [← cursor_noteCandidate h₁] at h
  exact bind_map (readTag_plain h) fun ⟨t, after⟩ _ => rfl

theorem takeBlock_alike (folded : Bool) (h : s.cursor.Inline) :
    s.plain.takeBlock folded = (s.takeBlock folded).map plain := by
  unfold takeBlock
  refine bind_map (dropCandidate_alike s) fun s₁ h₁ => ?_
  rw [← cursor_dropCandidate h₁] at h
  exact bind_map (readBlock_plain folded s₁.indent h) fun ⟨text, after⟩ _ => rfl

theorem takeQuoted_alike (double : Bool) (h : s.cursor.Inline) :
    s.plain.takeQuoted double = (s.takeQuoted double).map plain := by
  unfold takeQuoted
  refine bind_map (noteCandidate_alike s) fun s₁ h₁ => ?_
  rw [← cursor_noteCandidate h₁] at h
  exact bind_map (readQuoted_plain double h) fun ⟨text, after⟩ _ => rfl

theorem takePlain_alike (s : Layout) : s.plain.takePlain = s.takePlain.map plain := by
  unfold takePlain
  refine bind_map (noteCandidate_alike s) fun s₁ h₁ => ?_
  rw [show readPlain s₁.plain.inFlow (s₁.plain.indent + 1) s₁.plain.cursor =
    (readPlain s₁.inFlow (s₁.indent + 1) s₁.cursor).plain from readPlain_plain _ _ _]
  rfl

/-- Two runs that choose alike. -/
theorem ite_map {p : Prop} [Decidable p] {x y x' y' : Except Fault Layout}
    (hx : p → x' = x.map plain) (hy : y' = y.map plain) :
    (if p then x' else y') = (if p then x else y).map plain := by
  split
  · rename_i hp
    exact hx hp
  · exact hy

/-- **Every token is taken alike**, if no line ends in front of it. -/
theorem takeToken_alike (h : s.cursor.Inline) : s.plain.takeToken = s.takeToken.map plain := by
  cases hrest : s.cursor.rest with
  | nil =>
    have hplain : s.plain.cursor.rest = [] := congrArg plainLines hrest
    simp only [takeToken, hrest, hplain]
    exact takeEnd_alike s
  | cons a rest =>
    have ha : isBreak a = false := h a (by rw [hrest]; rfl)
    have hplain : s.plain.cursor.rest = a :: plainLines rest :=
      (congrArg plainLines hrest).trans (plainLines_cons ha rest)
    have hmarker : startsMarker (a :: plainLines rest) = startsMarker (a :: rest) := by
      rw [← plainLines_cons ha, startsMarker_plainLines]
    simp only [takeToken, hrest, hplain, hmarker, endsWord_plainLines,
      show s.plain.inFlow = s.inFlow from rfl, show s.plain.cursor.place = s.cursor.place from rfl,
      show startsPlain s.inFlow (a :: plainLines rest) = startsPlain s.inFlow (a :: rest) by
        simp only [startsPlain, endsWord_plainLines]]
    refine ite_map (fun _ => takeDirective_alike h) ?_
    refine ite_map (fun hmark => takeMarker_alike ?_) ?_
    · obtain ⟨more, heq, -⟩ := startsMarker_iff.mp (Bool.and_eq_true_iff.mp hmark).2
      rw [hrest]
      rcases heq with heq | heq <;> rw [heq] <;> simp [isBreak]
    refine ite_map (fun _ => takeFlowStart_alike h) ?_
    refine ite_map (fun _ => takeFlowStart_alike h) ?_
    refine ite_map (fun _ => takeFlowEnd_alike h) ?_
    refine ite_map (fun _ => takeFlowEnd_alike h) ?_
    refine ite_map (fun _ => takeFlowEntry_alike h) ?_
    refine ite_map (fun _ => takeBlockEntry_alike h) ?_
    refine ite_map (fun _ => takeKey_alike h) ?_
    refine ite_map (fun _ => takeValue_alike h) ?_
    refine ite_map (fun _ => takeName_alike h) ?_
    refine ite_map (fun _ => takeName_alike h) ?_
    refine ite_map (fun _ => takeTag_alike h) ?_
    refine ite_map (fun _ => takeBlock_alike false h) ?_
    refine ite_map (fun _ => takeBlock_alike true h) ?_
    refine ite_map (fun _ => takeQuoted_alike false h) ?_
    refine ite_map (fun _ => takeQuoted_alike true h) ?_
    exact ite_map (fun _ => takePlain_alike s) rfl

/-! ## 3. Steps -/

/-- No line ends in front of the next token. -/
theorem skipTrivia_inline : ∀ (cs : List Char) (inComment broken : Bool) (p : Place),
    (skipTrivia inComment broken cs p).2.Inline
  | [], _, _, _ => by rintro _ ⟨⟩
  | a :: cs, _, _, _ => by
      rw [skipTrivia]
      split
      · split
        · exact skipTrivia_inline cs _ _ _
        · exact skipTrivia_inline cs _ _ _
      · split
        · exact skipTrivia_inline cs _ _ _
        · split
          · exact skipTrivia_inline cs _ _ _
          · rename_i hbreak _ _
            exact Cursor.inline_of_head? rfl (Bool.eq_false_iff.mpr hbreak)

/-- **One step of reading is the same in both runs.** -/
theorem step_alike (s : Layout) : s.plain.step = s.step.map plain := by
  unfold step
  rw [toNextToken_alike]
  refine bind_map (dropStale_alike _) fun s₁ h₁ => ?_
  rw [show s₁.plain.cursor.place = s₁.cursor.place from rfl, unwind_alike]
  refine takeToken_alike ?_
  rw [cursor_unwind, cursor_dropStale h₁]
  exact skipTrivia_inline s.cursor.rest _ _ _

theorem start_plainLines (t : List Char) : start (plainLines t) = (start t).plain := by
  unfold start
  dsimp only
  simp only [head?_plainLines_iff (a := '\uFEFF') (by decide)]
  split
  · rename_i hmark
    have hinline : Cursor.Inline ⟨t, {}⟩ := Cursor.inline_of_head? hmark (by decide)
    exact congrArg (fun c => ({ cursor := c } : Layout)) (Cursor.drop_one_plain hinline)
  · rfl

end Layout

/-! ## 4. Whole texts -/

/-- From a layout with plain line ends, reading goes on to the same tokens and the same fault. -/
theorem tokensFrom_alike : ∀ (n : Nat) (s : Layout), tokensFrom n s.plain = tokensFrom n s
  | 0, _ => rfl
  | n + 1, s => by
      simp only [tokensFrom, Layout.dropStale_alike]
      cases s.dropStale with
      | error f => rfl
      | ok s₁ =>
        simp only [Except.map, Layout.step_alike]
        cases s₁.step with
        | error f => rfl
        | ok s₂ =>
          simp only [tokensFrom_alike n s₂]
          rfl

theorem length_plainLines_le (t : List Char) : (plainLines t).length ≤ t.length := by
  fun_induction plainLines t with
  | case1 => exact Nat.le_refl _
  | case2 cs ih => exact Nat.le_succ_of_le (Nat.succ_le_succ ih)
  | case3 c cs _ ih => exact Nat.succ_le_succ ih

/-- **Both runs come to the same tokens**, and stop alike. -/
theorem tokensOf_plainLines (t : List Char) : tokensOf (plainLines t) = tokensOf t := by
  have hlength : (Layout.start (plainLines t)).cursor.rest.length ≤ (plainLines t).length := by
    unfold Layout.start
    dsimp only
    split
    · exact (Cursor.rest_drop_suffix _ 1).length_le
    · exact Nat.le_refl _
  have hle := length_plainLines_le t
  calc tokensOf (plainLines t)
      = tokensFrom (t.length + 1) (Layout.start (plainLines t)) :=
        tokensFrom_eq_of_lt (by omega) (by omega)
    _ = tokensFrom (t.length + 1) (Layout.start t).plain := by rw [Layout.start_plainLines]
    _ = tokensOf t := tokensFrom_alike _ _

/-- Plain line ends are as allowed as the line ends that they stand for. -/
theorem isSource_plainLines (t : List Char) : isSource (plainLines t) = isSource t := by
  have hallowed : ∀ a, isAllowed (if a = '\r' then '\n' else a) = isAllowed a :=
    apply_plainEnd (by decide)
  unfold isSource
  fun_induction plainLines t with
  | case1 => rfl
  | case2 cs ih =>
    rw [List.all_cons, List.all_cons, List.all_cons, ih]
    rfl
  | case3 c cs _ ih => rw [List.all_cons, List.all_cons, ih, hallowed]

/-- A text and the same text with plain line ends are the same document, or fail alike. -/
theorem load_plainLines (t : List Char) : load (plainLines t) = load t := by
  rw [load, load, isSource_plainLines, tokensOf_plainLines]

end Conform.Markup
