import Conform.Markup.Pen
import Conform.Markup.Scalar.Gap
import Conform.Markup.Style
import Conform.Proofs.Markup.Places

/-!
# Gaps as they are written

A writer puts two kinds of gap between words: the spaces themselves, or a line break and an
indentation where it folds a line. This file says what a reader makes of both, and which characters
words are made of.
-/

namespace Conform.Markup

/-! ## 1. Runs of spaces -/

namespace Gap

/-- The gap after so many more spaces. -/
def addSpaces : Nat → Gap → Gap
  | 0, g => g
  | n + 1, g => addSpaces n (g.addSpacing ' ')

theorem addSpaces_spacing : ∀ (n : Nat) (cs : List Char),
    addSpaces n (.spacing cs) = .spacing (List.replicate n ' ' ++ cs)
  | 0, _ => rfl
  | n + 1, cs => by
      rw [addSpaces, addSpacing, addSpaces_spacing n, List.replicate_succ', List.append_assoc]
      rfl

/-- Spaces behind a break are dropped. -/
@[simp] theorem addSpaces_breaks (f : Option Char) (cs : List Char) : ∀ n : Nat,
    addSpaces n (.breaks f cs) = .breaks f cs
  | 0 => rfl
  | n + 1 => addSpaces_breaks f cs n

theorem addSpaces_none : ∀ n : Nat,
    addSpaces n .none = if n = 0 then .none else .spacing (List.replicate n ' ')
  | 0 => rfl
  | n + 1 => by
      rw [addSpaces, addSpacing, addSpaces_spacing, if_neg (Nat.succ_ne_zero n),
        List.replicate_succ']

/-- Spaces are kept within a line. -/
@[simp] theorem folded_addSpaces_none (n : Nat) :
    (addSpaces n .none).folded = List.replicate n ' ' := by
  rw [addSpaces_none]
  split
  · rename_i h
    rw [h]
    rfl
  · rw [folded, List.reverse_replicate]

theorem addSpaces_eq_none_iff {n : Nat} : addSpaces n .none = .none ↔ n = 0 := by
  rw [addSpaces_none]
  split <;> simp_all

end Gap

/-! ## 2. Characters of words -/

namespace Style

theorem isAnyBreak_of_isOwnBreak {c : Char} (h : isOwnBreak c = true) : isAnyBreak c = true := by
  simp only [isOwnBreak, isAnyBreak, Bool.or_eq_true, decide_eq_true_eq] at h ⊢
  rcases h with (rfl | rfl) | rfl <;> simp

/-- The next-line control is the only break of a text that would not be read as it stands. -/
theorem isOwnBreak_of_isAnyBreak {c : Char} (h : isAnyBreak c = true) (hne : c ≠ '\x85') :
    isOwnBreak c = true := by
  simp only [isOwnBreak, isAnyBreak, Bool.or_eq_true, decide_eq_true_eq] at h ⊢
  rcases h with ((rfl | rfl) | rfl) | rfl
  · simp
  · exact absurd rfl hne
  · simp
  · simp

theorem isAnyBreak_of_isShown {c : Char} (h : isShown c = true) : isAnyBreak c = false := by
  cases hb : isAnyBreak c with
  | false => rfl
  | true =>
    simp only [isAnyBreak, Bool.or_eq_true, decide_eq_true_eq] at hb
    rcases hb with ((rfl | rfl) | rfl) | rfl <;> exact absurd h (by decide)

theorem isBreak_of_isShown {c : Char} (h : isShown c = true) : isBreak c = false := by
  cases hb : isBreak c with
  | false => rfl
  | true =>
    simp only [isBreak, Bool.or_eq_true, decide_eq_true_eq] at hb
    rcases hb with (((rfl | rfl) | rfl) | rfl) | rfl <;> exact absurd h (by decide)

theorem isSpacing_of_isShown {c : Char} (h : isShown c = true) (hne : c ≠ ' ') :
    isSpacing c = false := by
  cases hs : isSpacing c with
  | false => rfl
  | true =>
    simp only [isSpacing, Bool.or_eq_true, decide_eq_true_eq] at hs
    rcases hs with rfl | rfl
    · exact absurd rfl hne
    · exact absurd h (by decide)

theorem isInline_of_isShown {c : Char} (h : isShown c = true) : Place.IsInline c := by
  refine ⟨isBreak_of_isShown h, ?_⟩
  rintro rfl
  exact absurd h (by decide)

end Style

/-- A line with spaces at its start has no marker there. -/
theorem startsMarker_spaces {n : Nat} (hn : 0 < n) (rest : List Char) :
    startsMarker (List.replicate n ' ' ++ rest) = false := by
  obtain ⟨m, rfl⟩ := Nat.exists_eq_succ_of_ne_zero (Nat.ne_of_gt hn)
  rfl

end Conform.Markup
