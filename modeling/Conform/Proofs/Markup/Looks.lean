import Conform.Proofs.Markup.Scalar.Forms
import Conform.Proofs.Markup.Times

/-!
# What a plain scalar looks like

No text matches two patterns of the dialect: a pattern matches a text exactly if that is what the
library takes the text for (`matches_pattern_iff`). So whatever the order in which the patterns are
tried, the first one that matches is the same (`firstMatch_eq`).
-/

namespace Conform.Markup.Dialect

open Pattern

/-! ## 1. Integers, floating numbers and times -/

theorem Groups.not_mem {gs : List Char} (h : Groups gs) : '.' ∉ gs := by
  have hdigit : ¬ isDigit '.' = true := by decide
  have hlead : '.' ∉ "012345".toList := by decide
  induction h with
  | nil => exact List.not_mem_nil
  | one hd _ ih =>
    simp only [List.mem_cons, not_or]
    exact ⟨by decide, fun e => hdigit (e ▸ hd), ih⟩
  | two ht hd _ ih =>
    simp only [List.mem_cons, not_or]
    exact ⟨by decide, fun e => hlead (e ▸ ht), fun e => hdigit (e ▸ hd), ih⟩

/-- There is no point in an integer. -/
theorem Magnitude.not_mem {u : List Char} (h : Magnitude u) : '.' ∉ u := by
  have hlead : '.' ∉ "123456789".toList := by decide
  cases h with
  | binary _ h =>
    simp only [List.mem_cons, not_or]
    exact ⟨by decide, by decide, fun e => absurd (h _ e) (by decide)⟩
  | octal h =>
    simp only [List.mem_cons, not_or]
    exact ⟨by decide, fun e => absurd (h _ e) (by decide)⟩
  | decimal hc h =>
    simp only [List.mem_cons, not_or]
    exact ⟨fun e => hlead (e ▸ hc), fun e => absurd (h _ e) (by decide)⟩
  | hexadecimal _ h =>
    simp only [List.mem_cons, not_or]
    exact ⟨by decide, by decide, fun e => absurd (h _ e) (by decide)⟩
  | sexagesimal hc h hgs _ =>
    simp only [List.mem_cons, List.mem_append, not_or]
    exact ⟨fun e => hlead (e ▸ hc), fun e => absurd (h _ e) (by decide), hgs.not_mem⟩

/-- There is a point in every floating number. -/
theorem mem_of_isFloat {w : List Char} (h : isFloat w = true) : '.' ∈ unsigned w := by
  rw [isFloat_iff, matches_floatPattern] at h
  rcases h with h | h | h | h | h
  · obtain ⟨_, _, hu, -, h⟩ := matches_oneOf_cons.mp h
    obtain ⟨_, _, rfl, -, h⟩ := matches_any_oneOf_cons.mp h
    obtain ⟨_, rfl, -⟩ := matches_char_cons.mp h
    simp [hu]
  · obtain ⟨_, rfl, -⟩ := matches_char_cons.mp h
    exact List.mem_cons_self
  · obtain ⟨_, _, hu, -, h⟩ := matches_oneOf_cons.mp h
    obtain ⟨_, _, rfl, -, h⟩ := matches_any_oneOf_cons.mp h
    obtain ⟨_, -, _, hpoint, rfl⟩ := matches_seq_cons.mp h
    obtain ⟨_, rfl, -⟩ := matches_char_cons.mp hpoint
    simp [hu]
  · rw [matches_words] at h
    generalize unsigned w = u at h
    revert u
    decide
  · rw [matches_words] at h
    revert w
    decide

theorem isFloat_of_isInt {w : List Char} (h : isInt w = true) : isFloat w = false :=
  Bool.eq_false_iff.mpr fun hfloat => (isInt_iff.mp h).not_mem (mem_of_isFloat hfloat)

/-- A time starts with digits and a hyphen, so it is no number. -/
theorem tagOfWhole_of_isTimestamp {w : List Char} (h : isTimestamp w = true) :
    tagOfWhole w = .timestamp := by
  obtain ⟨y, m, d, rest, hfront, -⟩ := isTimestamp_iff.mp h
  obtain ⟨c, ds, rfl⟩ : ∃ c ds, y = c :: ds :=
    List.exists_cons_of_ne_nil fun hnil => by simpa [hnil, Digits] using hfront.year.2
  obtain ⟨hc, hds⟩ := List.forall_mem_cons.mp hfront.year.1
  have hw : w = c :: (ds ++ '-' :: (m ++ '-' :: (d ++ rest))) := hfront.eq
  have hnumber : startsNumber c = true := by simp [startsNumber, hc]
  have hint : isInt w = false := by
    rw [hw]
    exact isInt_of_hyphen hc hds
  have hfloat : isFloat w = false := by
    have hbody : unsigned w = c :: ds ++ '-' :: (m ++ '-' :: (d ++ rest)) := by
      rw [hw, unsigned_of_digit hc]
      rfl
    have hhead : ∀ x ∈ w.head?, startsNumber x = true := by
      rw [hw]
      rintro x ⟨⟩
      exact hnumber
    exact isFloat_of_digits hbody hfront.year.1 hhead (.inr ⟨_, rfl⟩)
  rw [hw] at h hint hfloat ⊢
  rw [tagOfWhole_of_startsNumber hnumber, hfloat, hint, h]
  rfl

/-- What a recogniser finds is no truth value if it finds none of the words for one. -/
theorem isBool_of_found {recognises : List Char → Bool}
    (hwords : ∀ p ∈ boolWords, recognises p.1 = false) {w : List Char} (h : recognises w = true) :
    isBool w = false :=
  Bool.eq_false_iff.mpr fun hbool => by
    obtain ⟨p, hp, hw⟩ := List.any_eq_true.mp hbool
    obtain rfl : p.1 = w := of_decide_eq_true hw
    exact absurd h (Bool.eq_false_iff.mp (hwords p hp))

theorem tagOfWhole_of_isInt {w : List Char} (h : isInt w = true) : tagOfWhole w = .int := by
  rw [tagOfWhole, isBool_of_found (by decide) h, isFloat_of_isInt h, h]
  rfl

theorem tagOfWhole_of_isFloat {w : List Char} (h : isFloat w = true) : tagOfWhole w = .float := by
  rw [tagOfWhole, isBool_of_found (by decide) h, h]
  rfl

/-! ## 2. All patterns -/

/-- What a text is taken for matches the pattern of that, unless it is reserved. -/
theorem tagOfWhole_cases (w : List Char) :
    (∃ p ∈ patterns, tagOfWhole w = p.1 ∧ Matches p.2 w) ∨
      (w ∈ reservedMarks ∧ tagOfWhole w = .other) ∨ tagOfWhole w = .str := by
  unfold tagOfWhole
  split
  · rename_i h
    refine .inl ⟨(.bool, boolPattern), by simp [patterns], rfl, matches_words.mpr ?_⟩
    obtain ⟨p, hp, hw⟩ := List.any_eq_true.mp h
    obtain rfl : p.1 = w := of_decide_eq_true hw
    have hwords : ∀ p ∈ boolWords, p.1 ∈ ["yes", "Yes", "YES", "no", "No", "NO", "true", "True",
        "TRUE", "false", "False", "FALSE", "on", "On", "ON", "off", "Off", "OFF"].map
          String.toList := by decide
    exact hwords p hp
  split
  · rename_i h
    exact .inl ⟨(.float, floatPattern), by simp [patterns], rfl, isFloat_iff.mp h⟩
  split
  · rename_i h
    exact .inl ⟨(.int, intPattern), by simp [patterns], rfl, matches_intPattern.mpr (isInt_iff.mp h)⟩
  split
  · rename_i h
    exact .inl ⟨(.merge, mergePattern), by simp [patterns], rfl, matches_word.mpr h⟩
  split
  · rename_i h
    refine .inl ⟨(.null, nullPattern), by simp [patterns], rfl, matches_words.mpr ?_⟩
    have hwords : ∀ u ∈ nullWords, u ∈ ["~", "null", "Null", "NULL", ""].map String.toList := by
      decide
    exact hwords w (List.contains_iff_mem.mp h)
  split
  · rename_i h
    exact .inl ⟨(.timestamp, timestampPattern), by simp [patterns], rfl,
      matches_timestampPattern.mpr h⟩
  split
  · rename_i h
    exact .inl ⟨(.value, valuePattern), by simp [patterns], rfl, matches_word.mpr h⟩
  split
  · rename_i h
    exact .inr (.inl ⟨List.contains_iff_mem.mp h, rfl⟩)
  · exact .inr (.inr rfl)

theorem tagOfWhole_of_matches {p : Tag × Expression} (hp : p ∈ patterns) {w : List Char}
    (h : Matches p.2 w) : tagOfWhole w = p.1 := by
  simp only [patterns, List.mem_cons, List.not_mem_nil, or_false] at hp
  rcases hp with rfl | rfl | rfl | rfl | rfl | rfl | rfl
  · have hw := matches_words.mp h
    clear h
    revert w
    decide
  · exact tagOfWhole_of_isFloat (isFloat_iff.mpr h)
  · exact tagOfWhole_of_isInt (isInt_iff.mpr (matches_intPattern.mp h))
  · rw [matches_word.mp h]
    decide
  · have hw := matches_words.mp h
    clear h
    revert w
    decide
  · exact tagOfWhole_of_isTimestamp (matches_timestampPattern.mp h)
  · rw [matches_word.mp h]
    decide

/-- **A pattern matches exactly what is taken for what it stands for.** -/
theorem matches_pattern_iff {p : Tag × Expression} (hp : p ∈ patterns) {w : List Char} :
    Matches p.2 w ↔ tagOfWhole w = p.1 := by
  refine ⟨tagOfWhole_of_matches hp, fun h => ?_⟩
  have htags : ∀ p ∈ patterns, p.1 ≠ .str ∧ p.1 ≠ .other := by simp [patterns]
  have hinjective : ∀ p ∈ patterns, ∀ q ∈ patterns, p.1 = q.1 → p = q := by
    simp [patterns]
  rcases tagOfWhole_cases w with ⟨q, hq, htag, hmatches⟩ | ⟨-, hother⟩ | hstr
  · rwa [hinjective p hp q hq (h.symm.trans htag)]
  · exact absurd (h.symm.trans hother) (htags p hp).2
  · exact absurd (h.symm.trans hstr) (htags p hp).1

/-- No text matches two patterns. -/
theorem pattern_unique {p q : Tag × Expression} (hp : p ∈ patterns) (hq : q ∈ patterns)
    {w : List Char} (h : Matches p.2 w) (h' : Matches q.2 w) : p = q := by
  have hinjective : ∀ p ∈ patterns, ∀ q ∈ patterns, p.1 = q.1 → p = q := by
    simp [patterns]
  exact hinjective p hp q hq
    (((matches_pattern_iff hp).mp h).symm.trans ((matches_pattern_iff hq).mp h'))

/-- What the first pattern that matches stands for. What matches no pattern is a string. -/
def firstMatch (ps : List (Tag × Expression)) (w : List Char) : Tag :=
  ((ps.find? fun p => Matches p.2 w).map Prod.fst).getD .str

/-- **The order of the patterns does not matter.** -/
theorem firstMatch_eq {ps : List (Tag × Expression)} (h : ps.Perm patterns) {w : List Char}
    (hw : w ∉ reservedMarks) : firstMatch ps w = tagOfWhole w := by
  rw [firstMatch]
  cases hfind : ps.find? fun p => Matches p.2 w with
  | some p =>
    have hp := h.mem_iff.mp (List.mem_of_find?_eq_some hfind)
    have hmatches := List.find?_some hfind
    exact (tagOfWhole_of_matches hp (of_decide_eq_true hmatches)).symm
  | none =>
    rcases tagOfWhole_cases w with ⟨p, hp, -, hmatches⟩ | ⟨hreserved, -⟩ | hstr
    · exact absurd (decide_eq_true hmatches)
        (List.find?_eq_none.mp hfind p (h.mem_iff.mpr hp))
    · exact absurd hreserved hw
    · exact hstr.symm

/-- Within a line a text is taken for what it is as a whole. -/
theorem tagOf_eq {w : List Char} (h : '\n' ∉ w) : tagOf w = tagOfWhole w := by
  rw [tagOf, withoutLastFeed, if_neg fun hfeed => ?_]
  rw [Bool.and_eq_true, decide_eq_true_eq, decide_eq_true_eq] at hfeed
  exact h (List.mem_of_getLast? hfeed.2)

end Conform.Markup.Dialect
