import Conform.Markup.Style

/-!
# Which style a string gets

A string is written plain or between single quotes only if it is made of characters and the style
can hold it (`ofText_cases`); between double quotes it is written as it is.
-/

namespace Conform

theorem Text.eq_ofChars : ∀ {t : Text} {cs : List Char}, t.chars? = some cs → t = Text.ofChars cs
  | [], cs => fun h => by
      cases h
      rfl
  | p :: t, cs => fun h => by
      rw [Text.chars?, List.mapM_cons] at h
      cases p with
      | surrogate s => cases h
      | char c =>
        cases hmore : t.mapM CodePoint.char? with
        | none =>
          rw [hmore] at h
          cases h
        | some more =>
          rw [hmore] at h
          cases h
          rw [Text.eq_ofChars hmore]
          rfl

namespace Markup.Style

/-- **The three styles.** -/
theorem ofText_cases (t : Text) :
    (∃ cs, t = Text.ofChars cs ∧ ofText t = .plain cs ∧ isPlain cs = true) ∨
      (∃ cs, t = Text.ofChars cs ∧ ofText t = .single cs ∧ fitsSingle cs = true) ∨
      ofText t = .double t := by
  cases hchars : t.chars? with
  | none => exact .inr (.inr (by rw [ofText, hchars]))
  | some cs =>
    have ht := Text.eq_ofChars hchars
    by_cases hplain : isPlain cs = true
    · exact .inl ⟨cs, ht, by rw [ofText, hchars]; simp only [hplain, if_true], hplain⟩
    · by_cases hsingle : fitsSingle cs = true
      · refine .inr (.inl ⟨cs, ht, ?_, hsingle⟩)
        rw [ofText, hchars]
        simp only [hplain, hsingle, if_true]
        rfl
      · refine .inr (.inr ?_)
        rw [ofText, hchars]
        simp only [hplain, hsingle]
        rfl

end Markup.Style

end Conform
