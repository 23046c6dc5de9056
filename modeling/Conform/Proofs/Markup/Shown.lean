import Conform.Proofs.Markup.Atoms

/-!
# What is written can be read

A document is written with characters that are shown as they are and with line breaks, and nothing
else may stand in a source (`isSource_of_printed`). A scalar that is not
folded is written on one line, if it has no breaks, and its length is bounded by that of its text.
-/

namespace Conform.Markup

open Style

/-! ## 1. Printed characters -/

/-- A character of a written document. -/
def Printed (c : Char) : Prop :=
  isShown c = true ∨ isOwnBreak c = true

theorem printed_space : Printed ' ' := .inl (by decide)

theorem printed_newLine (n : Nat) : ∀ c ∈ newLine n, Printed c := by
  intro c hc
  rcases List.mem_cons.mp hc with rfl | hc
  · exact .inr (by decide)
  · rw [(List.mem_replicate.mp hc).2]
    exact printed_space

/-- A printed character is allowed in a source. -/
theorem Printed.isAllowed {c : Char} (h : Printed c) : isAllowed c = true := by
  rcases h with h | h
  · simp only [isShown, Markup.isAllowed, Bool.or_eq_true, Bool.and_eq_true, decide_eq_true_eq,
      bne_iff_ne] at h ⊢
    omega
  · simp only [isOwnBreak, Bool.or_eq_true, decide_eq_true_eq] at h
    rcases h with (rfl | rfl) | rfl <;> decide

/-- **A printed text is a source.** -/
theorem isSource_of_printed {text : List Char} (h : ∀ c ∈ text, Printed c) :
    isSource text = true :=
  List.all_eq_true.mpr fun c hc => (h c hc).isAllowed

/-! ## 2. Scalars are printed -/

theorem printed_plainFrom {folds : Bool} {n : Nat} : ∀ {cs : List Char} {spaces column : Nat},
    (∀ c ∈ cs, isShown c = true) → ∀ c ∈ (plainFrom folds n spaces column cs).1, Printed c
  | [], spaces, column => fun _ c hc => by
      rw [(List.mem_replicate.mp hc).2]
      exact printed_space
  | d :: cs, spaces, column => fun h c hc => by
      obtain ⟨hd, hcs⟩ := List.forall_mem_cons.mp h
      rw [plainFrom_cons] at hc
      split at hc
      · exact printed_plainFrom hcs c hc
      · rcases List.mem_append.mp hc with hc | hc
        · rw [plainFront] at hc
          split at hc
          · exact printed_newLine n c hc
          · rw [(List.mem_replicate.mp hc).2]
            exact printed_space
        · rcases List.mem_cons.mp hc with rfl | hc
          · exact .inl hd
          · exact printed_plainFrom hcs c hc

section Single

variable {P : Char → Prop} {folds : Bool} {n : Nat}

/-- What is written for a gap between single quotes consists of the gap, spaces and line feeds. -/
theorem forall_singleFront (hspace : P ' ') (hfeed : P '\n') (fold : Bool) {gap : List Char}
    (h : ∀ c ∈ gap, P c) : ∀ c ∈ singleFront n fold gap, P c := by
  have hindent : ∀ c ∈ List.replicate n ' ', P c := fun c hc => by
    rw [List.eq_of_mem_replicate hc]
    exact hspace
  rw [singleFront]
  split
  · rw [breaksPiece]
    refine List.forall_mem_append.mpr ⟨List.forall_mem_append.mpr ⟨?_, ?_⟩, hindent⟩
    · split
      · exact List.forall_mem_singleton.mpr hfeed
      · exact fun _ hc => absurd hc List.not_mem_nil
    · exact fun c hc => h c (List.mem_reverse.mp hc)
  · split
    · exact List.forall_mem_cons.mpr ⟨hfeed, hindent⟩
    · exact h

theorem forall_singleOwn (hquote : P '\'') {d : Char} (h : P d) : ∀ c ∈ singleOwn d, P c := by
  rw [singleOwn]
  split
  · exact List.forall_mem_cons.mpr ⟨hquote, List.forall_mem_singleton.mpr hquote⟩
  · exact List.forall_mem_singleton.mpr h

/-- **What stands between single quotes** consists of the text, quotes, spaces and line feeds. -/
theorem forall_singleFrom (hspace : P ' ') (hfeed : P '\n') (hquote : P '\'') {cs : List Char} :
    ∀ {gap : List Char} {inner : Bool} {column : Nat}, (∀ c ∈ gap, P c) → (∀ c ∈ cs, P c) →
      ∀ c ∈ (singleFrom folds n inner gap column cs).1, P c := by
  induction cs with
  | nil =>
    intro gap inner column hgap _
    rw [singleFrom_nil]
    exact forall_singleFront hspace hfeed false hgap
  | cons d cs ih =>
    intro gap inner column hgap hcs
    obtain ⟨hd, hcs⟩ := List.forall_mem_cons.mp hcs
    have hfront := fun fold => @forall_singleFront P n hspace hfeed fold gap hgap
    cases hgoes : (d = ' ' && !gap.any isAnyBreak) ||
      (isAnyBreak d && (gap.isEmpty || gap.any isAnyBreak)) with
    | true =>
      rw [singleFrom_gap hgoes]
      exact ih (List.forall_mem_cons.mpr ⟨hd, hgap⟩) hcs
    | false =>
      by_cases hc : d = ' ' ∨ isAnyBreak d = true
      · obtain ⟨fold, column', hwrite⟩ := singleFrom_between folds inner n column gap cs hgoes hc
        rw [hwrite]
        exact List.forall_mem_append.mpr ⟨hfront fold, ih (List.forall_mem_singleton.mpr hd) hcs⟩
      · obtain ⟨hne, hbreak⟩ := not_or.mp hc
        obtain ⟨fold, column', -, hwrite⟩ := singleFrom_word folds inner n column gap cs hne
          (Bool.eq_false_iff.mpr hbreak)
        rw [hwrite]
        refine List.forall_mem_append.mpr ⟨List.forall_mem_append.mpr ⟨hfront fold, ?_⟩, ?_⟩
        · exact forall_singleOwn hquote hd
        · exact ih (fun _ hmem => absurd hmem List.not_mem_nil) hcs

end Single

theorem isShown_upperDigit : ∀ v < 16, isShown (upperDigit v) = true := by
  decide

theorem isShown_of_mem_hexDigits {digit : Nat → Char} (h : ∀ v < 16, isShown (digit v) = true) :
    ∀ {w n : Nat} {c : Char}, c ∈ hexDigits digit n w → isShown c = true
  | 0, _, _ => fun hc => absurd hc List.not_mem_nil
  | w + 1, n, c => fun hc => by
      rcases List.mem_append.mp hc with hc | hc
      · exact isShown_of_mem_hexDigits h hc
      · rw [List.mem_singleton.mp hc]
        exact h _ (Nat.mod_lt n (by decide))

/-- An escape is written with shown characters, up to ten of them. -/
theorem escape_shown (p : CodePoint) :
    (∀ c ∈ escape p, isShown c = true) ∧ (escape p).length ≤ 10 := by
  have hdigits : ∀ (mark : Char) (w : Nat), isShown mark = true →
      ∀ c ∈ '\\' :: mark :: hexDigits upperDigit p.toNat w, isShown c = true := by
    intro mark w hmark c hc
    rcases List.mem_cons.mp hc with rfl | hc
    · decide
    · rcases List.mem_cons.mp hc with rfl | hc
      · exact hmark
      · exact isShown_of_mem_hexDigits isShown_upperDigit hc
  unfold escape
  split
  · rename_i l hl
    refine ⟨?_, by simp⟩
    have hshown : isShown l = true := by
      unfold escapeLetter? at hl
      split at hl <;> cases hl <;> decide
    simp [hshown]
    decide
  · dsimp only
    split
    · exact ⟨hdigits 'x' 2 (by decide), by simp [length_hexDigits]⟩
    · split
      · exact ⟨hdigits 'u' 4 (by decide), by simp [length_hexDigits]⟩
      · exact ⟨hdigits 'U' 8 (by decide), by simp [length_hexDigits]⟩

theorem isShown_of_standsInDouble {c : Char} (h : standsInDouble (.char c) = true) :
    isShown c = true := by
  have hne : ∀ d : Char, standsInDouble (.char d) = false → c ≠ d := by
    rintro d hd rfl
    rw [hd] at h
    cases h
  have hbreak : isAnyBreak c = false := by
    simp only [isAnyBreak, Bool.or_eq_false_iff, decide_eq_false_iff_not]
    exact ⟨⟨⟨hne _ (by decide), hne _ (by decide)⟩, hne _ (by decide)⟩, hne _ (by decide)⟩
  have hmark : c.toNat ≠ 0xFEFF := fun heq =>
    hne '\uFEFF' (by decide) (Char.toNat_inj.mp heq)
  simp only [standsInDouble, Bool.and_eq_true, Bool.or_eq_true, decide_eq_true_eq] at h
  simp only [isShown, hbreak, Bool.not_false, Bool.and_true, Bool.and_eq_true, Bool.or_eq_true,
    decide_eq_true_eq, bne_iff_ne]
  omega

theorem printed_foldDouble (n : Nat) (space : Bool) : ∀ c ∈ foldDouble n space, Printed c := by
  have hback : Printed '\\' := .inl (by decide)
  rw [foldDouble_eq]
  refine List.forall_mem_append.mpr ⟨?_, ?_⟩
  · exact List.forall_mem_cons.mpr ⟨hback, printed_newLine n⟩
  · split
    · simpa using hback
    · simp

theorem printed_doubleFrom (folds : Bool) (n : Nat) : ∀ (t : Text) {first atEscape : Bool}
    {column : Nat}, ∀ c ∈ (doubleFrom folds n first atEscape column t).1, Printed c
  | [], _, _, _ => fun _ hc => absurd hc List.not_mem_nil
  | p :: ps, first, atEscape, column => by
      have hfold : ∀ fold space : Bool,
          ∀ c ∈ (if fold then foldDouble n space else []), Printed c := by
        intro fold space
        cases fold with
        | true => exact printed_foldDouble n space
        | false => exact fun _ hc => absurd hc List.not_mem_nil
      rw [doubleFrom]
      split
      · rename_i hp
        cases p with
        | surrogate s => cases hp
        | char d =>
          simp only [CodePoint.char?, Option.toList_some, List.forall_mem_append]
          refine ⟨⟨hfold _ _, ?_⟩, printed_doubleFrom folds n ps⟩
          exact List.forall_mem_singleton.mpr (.inl (isShown_of_standsInDouble hp))
      · simp only [List.forall_mem_append]
        exact ⟨⟨fun c hc => .inl ((escape_shown p).1 c hc), hfold _ _⟩,
          printed_doubleFrom folds n ps⟩

theorem printed_indented {n : Nat} {ls : List (List Char)} (h : ∀ l ∈ ls, IsLine l) :
    ∀ c ∈ indented n ls, Printed c := by
  intro c hc
  obtain ⟨l, hl, hc⟩ := List.mem_flatMap.mp hc
  rcases List.mem_append.mp hc with hc | hc
  · exact printed_newLine n c hc
  · exact .inl ((h l hl).2 c hc).1

/-- **A proper atom is written with printed characters.** -/
theorem printed_scalarText {a : Atom} (ha : a.Proper) (folds : Bool) (n column : Nat) :
    ∀ c ∈ scalarText folds n column a, Printed c := by
  have hquoted : ∀ {q : Char} {cs : List Char}, Printed q → (∀ c ∈ cs, Printed c) →
      ∀ c ∈ q :: (cs ++ [q]), Printed c := by
    intro q cs hq hcs
    refine List.forall_mem_cons.mpr ⟨hq, List.forall_mem_append.mpr ⟨hcs, ?_⟩⟩
    simpa using hq
  have hplain : ∀ {cs : List Char}, fitsPlain cs = true →
      ∀ c ∈ (plainFrom folds n 0 column cs).1, Printed c := fun h =>
    printed_plainFrom (fitsPlain_iff.mp h).1
  by_cases hstr : ∃ t, a = .str t
  · obtain ⟨t, rfl⟩ := hstr
    rw [scalarText]
    rcases ofText_cases t with ⟨cs, -, hstyle, hcs⟩ | ⟨cs, ht, hstyle, hcs⟩ | hstyle
    · rw [hstyle]
      exact hplain (Bool.and_eq_true_iff.mp hcs).1
    · rw [hstyle]
      have hquote : Printed '\'' := .inl (by decide)
      exact hquoted hquote (forall_singleFrom printed_space (.inr (by decide)) hquote
        (fun _ hc => absurd hc List.not_mem_nil) (fitsSingle_chars hcs (ht ▸ ha)).1)
    · rw [hstyle]
      exact hquoted (.inl (by decide)) (printed_doubleFrom folds n t)
  · by_cases hbytes : ∃ bs, a = .bytes bs
    · obtain ⟨bs, rfl⟩ := hbytes
      have hshort : ∀ c ∈ Tag.binary.short, isShown c = true :=
        List.all_eq_true.mp (by decide)
      rw [scalarText]
      refine List.forall_mem_append.mpr ⟨fun c hc => .inl (hshort c hc), ?_⟩
      refine List.forall_mem_cons.mpr ⟨printed_space, ?_⟩
      split
      · exact fun c hc => .inl (List.all_eq_true.mp (by decide : ['"', '"'].all isShown = true) c hc)
      · exact List.forall_mem_cons.mpr ⟨.inl (by decide),
          printed_indented fun l hl => isLine_of_mem_byteLines hl⟩
    · rw [not_exists] at hstr hbytes
      rw [scalarText_of_form _ _ _ hstr hbytes]
      exact hplain (fitsPlain_plainForm (hasForm_of_proper ha hstr hbytes))

end Conform.Markup
