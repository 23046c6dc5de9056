import Conform.Proofs.Markup.Scalar.Escape
import Conform.Proofs.Markup.Scalar.Gap

/-!
# What comes back from between double quotes

The writer folds a line between double quotes with a backslash, and with another backslash behind
the indentation if the next character is a space. If the indentation itself is as wide as a line may
be, then it folds at an escape and again in front of the space behind it, and the second backslash of
the first fold is left standing in front of the first one of the second. It is read as a backslash,
and the break behind it as a space. So from there an escaped code point with a space behind it, not
the first one of its text and not followed by that space alone, comes back with a backslash and a
space too many (`strayed`); everything else comes back as it was (`readDoubleFrom_doubleFrom`).
-/

namespace Conform.Markup

/-! ## 1. Stray backslashes -/

/-- Is there a space in front of more? -/
def spaceWithin : Text → Bool
  | q :: _ :: _ => q.is ' '
  | _ => false

/-- A text with the backslashes and spaces that stray into it. -/
def strayed (first : Bool) : Text → Text
  | [] => []
  | p :: ps =>
    if !standsInDouble p && !first && spaceWithin ps then
      p :: .char '\\' :: .char ' ' :: strayed false ps
    else p :: strayed false ps

/-- A backslash strays into a text: an escaped code point that is not its first stands in front of
    a space that is not its last. -/
def Strays (t : Text) : Prop :=
  ∃ front e x back, front ≠ [] ∧ t = front ++ e :: .char ' ' :: x :: back ∧
    standsInDouble e = false

theorem spaceWithin_iff {ps : Text} :
    spaceWithin ps = true ↔ ∃ x back, ps = .char ' ' :: x :: back := by
  unfold spaceWithin
  split
  · rename_i q x back
    simp [CodePoint.is]
  · rename_i hne
    simp only [Bool.false_eq_true, false_iff]
    rintro ⟨x, back, rfl⟩
    exact hne _ _ _ rfl

theorem length_le_strayed : ∀ (first : Bool) (t : Text), t.length ≤ (strayed first t).length
  | _, [] => Nat.le_refl _
  | first, p :: ps => by
      have ih := length_le_strayed false ps
      rw [strayed]
      split <;> simp only [List.length_cons] <;> omega

/-- Behind a code point that is there, a text comes back unless there is an escaped one in front of
    a space in front of more. -/
theorem strayed_false_eq_iff : ∀ {t : Text}, strayed false t = t ↔
    ¬ ∃ front e x back, t = front ++ e :: .char ' ' :: x :: back ∧ standsInDouble e = false
  | [] => by simp [strayed]
  | p :: ps => by
      rw [strayed]
      by_cases hstray : (!standsInDouble p && !false && spaceWithin ps) = true
      · rw [if_pos hstray]
        simp only [Bool.and_eq_true, Bool.not_eq_true'] at hstray
        obtain ⟨⟨hp, -⟩, hspace⟩ := hstray
        obtain ⟨x, back, rfl⟩ := spaceWithin_iff.mp hspace
        constructor
        · intro h
          have hlength := congrArg List.length h
          have hle := length_le_strayed false (.char ' ' :: x :: back)
          simp only [List.length_cons] at hlength hle
          omega
        · intro h
          exact absurd ⟨[], p, x, back, rfl, hp⟩ h
      · rw [if_neg hstray, List.cons.injEq, strayed_false_eq_iff]
        simp only [true_and]
        refine not_congr ⟨?_, ?_⟩
        · rintro ⟨front, e, x, back, rfl, he⟩
          exact ⟨p :: front, e, x, back, rfl, he⟩
        · rintro ⟨front, e, x, back, h, he⟩
          cases front with
          | nil =>
            cases h
            exact absurd (by simp [he, spaceWithin, CodePoint.is]) hstray
          | cons q front =>
            cases h
            exact ⟨front, e, x, back, rfl, he⟩

/-- A text comes back exactly if no backslash strays into it. -/
theorem strayed_eq_iff {t : Text} : strayed true t = t ↔ ¬ Strays t := by
  cases t with
  | nil => simp [strayed, Strays]
  | cons p ps =>
    have hnot : ¬ (!standsInDouble p && !true && spaceWithin ps) = true := by simp
    rw [strayed, if_neg hnot, List.cons.injEq, strayed_false_eq_iff]
    simp only [true_and, Strays]
    refine not_congr ⟨?_, ?_⟩
    · rintro ⟨front, e, x, back, rfl, he⟩
      exact ⟨p :: front, e, x, back, List.cons_ne_nil _ _, rfl, he⟩
    · rintro ⟨front, e, x, back, hne, h, he⟩
      obtain ⟨q, front, rfl⟩ := List.exists_cons_of_ne_nil hne
      cases h
      exact ⟨front, e, x, back, rfl, he⟩

/-! ## 2. Reading what is between double quotes -/

section Inside

variable {gap : Gap} {reversed : Text} {rest : List Char}

theorem readDoubleFrom_spaces : ∀ (n : Nat) (gap : Gap) (p : Place),
    readDoubleFrom 0 [] gap reversed (List.replicate n ' ' ++ rest) p =
      readDoubleFrom 0 [] (gap.addSpaces n) reversed rest (p.after (List.replicate n ' '))
  | 0, _, _ => rfl
  | n + 1, gap, p => by
      rw [List.replicate_succ, List.cons_append, readDoubleFrom]
      simp only [show ¬ ' ' = '"' by decide, if_false, show isSpacing ' ' = true by decide, if_true]
      rw [readDoubleFrom_spaces n]
      rfl

/-- A break that is not hidden. -/
theorem readDoubleFrom_newLine {n : Nat} (hn : 0 < n) (p : Place) :
    readDoubleFrom 0 [] .none reversed (newLine n ++ rest) p =
      readDoubleFrom 0 [] (.breaks (some '\n') []) reversed rest (p.after (newLine n)) := by
  have hadd : Gap.none.addBreak '\n' = .breaks (some '\n') [] := rfl
  rw [newLine, List.cons_append, readDoubleFrom]
  simp only [show ¬ '\n' = '"' by decide, show isSpacing '\n' = false by decide,
    show isBreak '\n' = true by decide, isHalfBreak_feed, startsMarker_spaces hn,
    Bool.false_eq_true, if_false, if_true]
  rw [readDoubleFrom_spaces, readBreak_feed, hadd, Gap.addSpaces_breaks]
  rfl

/-- A break behind a backslash. -/
theorem readDoubleFrom_hidden {n : Nat} (hn : 0 < n) (p : Place) :
    readDoubleFrom 0 [] gap reversed ('\\' :: newLine n ++ rest) p =
      readDoubleFrom 0 [] (.breaks none []) ((Text.ofChars gap.folded).reverse ++ reversed) rest
        (p.after ('\\' :: newLine n)) := by
  rw [newLine, List.cons_append, List.cons_append, readDoubleFrom_hides rfl rfl]
  simp only [isHalfBreak_feed, show isBreak '\n' = true by decide, startsMarker_spaces hn,
    Bool.false_eq_true, if_false, if_true]
  rw [readDoubleFrom_spaces, Gap.addSpaces_breaks]
  rfl

/-- A character that stands for itself. -/
theorem readDoubleFrom_stands {c : Char} (hc : standsInDouble (.char c) = true) (hspace : c ≠ ' ')
    (p : Place) : readDoubleFrom 0 [] gap reversed (c :: rest) p =
      readDoubleFrom 0 [] .none (pushAfter gap (.char c) reversed) rest (p.next c) := by
  have hquote : c ≠ '"' := by
    rintro rfl
    exact absurd hc (by decide)
  have hback : c ≠ '\\' := by
    rintro rfl
    exact absurd hc (by decide)
  have hspacing : isSpacing c = false := by
    cases h : isSpacing c with
    | false => rfl
    | true =>
      simp only [isSpacing, Bool.or_eq_true, decide_eq_true_eq] at h
      rcases h with rfl | rfl
      · exact absurd rfl hspace
      · exact absurd hc (by decide)
  have hbreak : isBreak c = false := by
    cases h : isBreak c with
    | false => rfl
    | true =>
      simp only [isBreak, Bool.or_eq_true, decide_eq_true_eq] at h
      rcases h with (((rfl | rfl) | rfl) | rfl) | rfl <;> exact absurd hc (by decide)
  rw [readDoubleFrom]
  simp only [hquote, hback, hspacing, hbreak, Bool.false_eq_true, if_false]

theorem readDoubleFrom_space (p : Place) :
    readDoubleFrom 0 [] gap reversed (' ' :: rest) p =
      readDoubleFrom 0 [] (gap.addSpacing ' ') reversed rest (p.next ' ') :=
  readDoubleFrom_spaces 1 gap p

end Inside

/-! ## 3. What is written between double quotes -/

/-- A folded line is read as nothing, and so is the backslash that hides a space behind it. -/
theorem foldDouble_eq (n : Nat) (space : Bool) :
    foldDouble n space = '\\' :: newLine n ++ (if space then ['\\'] else []) := rfl

theorem two_le_length_escape (p : CodePoint) : 2 ≤ (escape p).length := by
  unfold escape
  split
  · exact Nat.le_refl 2
  · dsimp only
    split
    · simp [length_hexDigits]
    · split <;> simp [length_hexDigits]

theorem doubleFrom_stands (folds first atEscape : Bool) {n column : Nat} {c : Char}
    (hc : standsInDouble (.char c) = true) (hcolumn : n ≤ column) (ps : Text) :
    ∃ (fold : Bool) (column' : Nat), n ≤ column' ∧
      (doubleFrom folds n first atEscape column (.char c :: ps)).1 =
        (if fold then foldDouble n (CodePoint.is (.char c) ' ') else []) ++ c ::
          (doubleFrom folds n false false column' ps).1 := by
  rw [doubleFrom, if_pos hc]
  refine ⟨!first && !ps.isEmpty && (CodePoint.is (.char c) ' ' || atEscape) && width < column &&
    folds, _, ?_, by simp [CodePoint.char?]; rfl⟩
  split <;> omega

theorem doubleFrom_escaped (folds first atEscape : Bool) (n column : Nat) {p : CodePoint}
    (hp : standsInDouble p = false) (ps : Text) :
    ∃ fold : Bool, (fold = true ↔ first = false ∧ ps ≠ [] ∧ folds = true ∧
        width + 1 < column + (escape p).length) ∧
      (doubleFrom folds n first atEscape column (p :: ps)).1 =
        escape p ++ ((if fold then foldDouble n ((ps.head?.map fun q => q.is ' ').getD false)
          else []) ++ (doubleFrom folds n false true
            (if fold then n + (if (ps.head?.map fun q => q.is ' ').getD false then 1 else 0)
              else column + (escape p).length) ps).1) := by
  rw [doubleFrom, hp, if_neg Bool.false_ne_true]
  refine ⟨!first && !ps.isEmpty && width + 1 < column + (escape p).length && folds, ?_, ?_⟩
  · simp only [Bool.and_eq_true, Bool.not_eq_true', decide_eq_true_eq, List.isEmpty_eq_false_iff]
    constructor
    · rintro ⟨⟨⟨h₁, h₂⟩, h₃⟩, h₄⟩
      exact ⟨h₁, h₂, h₄, h₃⟩
    · rintro ⟨h₁, h₂, h₃, h₄⟩
      exact ⟨⟨⟨h₁, h₂⟩, h₄⟩, h₃⟩
  · simp only [List.append_assoc]

/-- A space behind a folded escape is folded once more exactly if the indentation is as wide as a
    line and there is more behind it. -/
theorem doubleFrom_space (folds : Bool) (n : Nat) (ps : Text) :
    ∃ column, n ≤ column ∧ (doubleFrom folds n false true (n + 1) (.char ' ' :: ps)).1 =
      (if !ps.isEmpty && width ≤ n && folds then foldDouble n true else []) ++ ' ' ::
        (doubleFrom folds n false false column ps).1 := by
  have hspace : standsInDouble (.char ' ') = true := by decide
  have his : CodePoint.is (.char ' ') ' ' = true := by decide
  have hwidth : width < n + 1 ↔ width ≤ n := Nat.lt_succ_iff
  rw [doubleFrom, if_pos hspace]
  simp only [his, Bool.true_or, Bool.and_true, Bool.not_false, Bool.true_and, if_true, hwidth,
    CodePoint.char?, Option.toList_some, List.append_assoc, List.cons_append, List.nil_append]
  refine ⟨_, ?_, rfl⟩
  split <;> omega

/-! ## 4. What comes back -/

/-- What comes back of a text between double quotes at an indentation. -/
def returned (folds : Bool) (n : Nat) (first : Bool) (t : Text) : Text :=
  if folds && width ≤ n then strayed first t else t

theorem returned_nil (folds : Bool) (n : Nat) (first : Bool) : returned folds n first [] = [] := by
  unfold returned
  split <;> rfl

theorem returned_stands {folds first : Bool} {n : Nat} {p : CodePoint} {ps : Text}
    (hp : standsInDouble p = true) :
    returned folds n first (p :: ps) = p :: returned folds n false ps := by
  unfold returned
  split
  · simp [strayed, hp]
  · rfl

/-- Nothing strays in front of a code point that is no space in front of more. -/
theorem returned_cons {folds first : Bool} {n : Nat} {p : CodePoint} {ps : Text}
    (h : first = true ∨ spaceWithin ps = false ∨ (folds && width ≤ n) = false) :
    returned folds n first (p :: ps) = p :: returned folds n false ps := by
  unfold returned
  by_cases hwide : (folds && width ≤ n) = true
  · rw [if_pos hwide, if_pos hwide, strayed]
    rcases h with h | h | h
    · simp [h]
    · simp [h]
    · rw [hwide] at h
      cases h
  · rw [if_neg hwide, if_neg hwide]

theorem returned_strayed {folds : Bool} {n : Nat} {p x : CodePoint} {ps : Text}
    (hp : standsInDouble p = false) (hwide : (folds && width ≤ n) = true) :
    returned folds n false (p :: .char ' ' :: x :: ps) =
      p :: .char '\\' :: .char ' ' :: .char ' ' :: returned folds n false (x :: ps) := by
  have hspace : standsInDouble (.char ' ') = true := by decide
  unfold returned
  rw [if_pos hwide, if_pos hwide, strayed, hp]
  simp [spaceWithin, CodePoint.is, strayed, hspace]

/-- Where reading may go on with a text: not behind a break, unless that is hidden and no space
    follows. -/
def Resumes (gap : Gap) (t : Text) : Prop :=
  gap.hasBreak = false ∨ (gap = .breaks none [] ∧ t.head? ≠ some (.char ' '))

theorem resumes_none (t : Text) : Resumes .none t := .inl rfl

/-- A stretch of what is written for a text is read, up to where the rest of the text is written. -/
def Stretches (folds : Bool) (n : Nat) (gap : Gap) (first : Bool) (t : Text)
    (written : List Char) : Prop :=
  ∃ (front : List Char) (back : Text) (gap' : Gap) (atEscape : Bool) (column : Nat) (t' : Text),
    n ≤ column ∧ Resumes gap' t' ∧ t'.length < t.length ∧
    written = front ++ (doubleFrom folds n false atEscape column t').1 ∧
    Text.ofChars gap.folded ++ returned folds n first t =
      back ++ (Text.ofChars gap'.folded ++ returned folds n false t') ∧
    ∀ (reversed : Text) (rest : List Char) (p : Place),
      readDoubleFrom 0 [] gap reversed (front ++ rest) p =
        readDoubleFrom 0 [] gap' (back.reverse ++ reversed) rest (p.after front)

theorem stretches_stands {folds first atEscape : Bool} {n column : Nat} {gap : Gap} {c : Char}
    {ps : Text} (hn : 0 < n) (hc : standsInDouble (.char c) = true) (hcolumn : n ≤ column)
    (hgap : Resumes gap (.char c :: ps)) :
    Stretches folds n gap first (.char c :: ps)
      (doubleFrom folds n first atEscape column (.char c :: ps)).1 := by
  obtain ⟨fold, column', hcolumn', hwrite⟩ :=
    doubleFrom_stands folds first atEscape hc hcolumn ps
  have hlt : ps.length < (CodePoint.char c :: ps).length := Nat.lt_succ_self _
  by_cases hspace : c = ' '
  · subst hspace
    cases fold with
    | true =>
      -- The folded line hides the space behind it.
      refine ⟨foldDouble n true ++ [' '], Text.ofChars gap.folded ++ [.char ' '], .none, false,
        column', ps, hcolumn', resumes_none ps, hlt, ?_, ?_, ?_⟩
      · rw [hwrite, List.append_assoc]
        rfl
      · rw [returned_stands hc, List.append_assoc]
        rfl
      · intro reversed rest p
        rw [foldDouble_eq, List.append_assoc, List.append_assoc, readDoubleFrom_hidden hn, if_pos rfl,
          List.singleton_append, List.singleton_append, readDoubleFrom_letter rfl]
        simp [Gap.folded, Text.ofChars, Place.after_append]
    | false =>
      have hkept : gap.hasBreak = false := by
        rcases hgap with h | ⟨-, h⟩
        · exact h
        · exact absurd rfl h
      refine ⟨[' '], [], gap.addSpacing ' ', false, column', ps, hcolumn', ?_, hlt, hwrite, ?_, ?_⟩
      · left
        cases gap with
        | breaks f cs => cases hkept
        | _ => rfl
      · rw [returned_stands hc]
        cases gap with
        | breaks f cs => cases hkept
        | _ => simp [Gap.folded, Gap.addSpacing, Text.ofChars]
      · intro reversed rest p
        exact readDoubleFrom_space p
  · have his : CodePoint.is (.char c) ' ' = false := by simp [CodePoint.is, hspace]
    refine ⟨(if fold then foldDouble n false else []) ++ [c], Text.ofChars gap.folded ++ [.char c],
      .none, false, column', ps, hcolumn', resumes_none ps, hlt, ?_, ?_, ?_⟩
    · rw [hwrite, his, List.append_assoc]
      rfl
    · rw [returned_stands hc, List.append_assoc]
      rfl
    · intro reversed rest p
      cases fold with
      | true =>
        rw [if_pos rfl, foldDouble_eq, if_neg Bool.false_ne_true, List.append_nil, List.append_assoc,
          readDoubleFrom_hidden hn, List.singleton_append, readDoubleFrom_stands hc hspace]
        simp [pushAfter, Gap.folded, Text.ofChars, Place.after_append]
      | false =>
        rw [if_neg Bool.false_ne_true, List.nil_append, List.singleton_append,
          readDoubleFrom_stands hc hspace]
        simp [pushAfter]

/-- A space behind a folded escape: one backslash hides it, and if the line is folded once more then
    another backslash strays into the text. -/
theorem readDoubleFrom_foldedSpace {n : Nat} (hn : 0 < n) (again : Bool) (reversed : Text)
    (rest : List Char) (p : Place) :
    readDoubleFrom 0 [] .none reversed
        (foldDouble n true ++ ((if again then foldDouble n true else []) ++ [' ']) ++ rest) p =
      readDoubleFrom 0 [] .none
        ((if again then [.char ' ', .char ' ', .char '\\'] else [.char ' ']) ++ reversed) rest
        (p.after (foldDouble n true ++ ((if again then foldDouble n true else []) ++ [' ']))) := by
  have hslash : letterEscape? '\\' = some '\\' := rfl
  have hspace : letterEscape? ' ' = some ' ' := rfl
  cases again with
  | true =>
    rw [if_pos rfl, if_pos rfl, foldDouble_eq, if_pos rfl]
    simp only [List.append_assoc, List.nil_append, List.cons_append]
    rw [← List.cons_append, readDoubleFrom_hidden hn, readDoubleFrom_letter hslash,
      readDoubleFrom_newLine hn, readDoubleFrom_letter hspace]
    simp [Gap.folded, Text.ofChars, Place.after_append]
  | false =>
    rw [if_neg Bool.false_ne_true, if_neg Bool.false_ne_true, List.nil_append, foldDouble_eq,
      if_pos rfl, List.append_assoc, List.append_assoc, readDoubleFrom_hidden hn,
      List.singleton_append, List.singleton_append, readDoubleFrom_letter hspace]
    simp [Gap.folded, Text.ofChars, Place.after_append]

/-- What comes back of an escaped code point in front of a space. -/
theorem returned_foldedSpace {folds first again : Bool} {n : Nat} {q : CodePoint} {ps : Text}
    (hq : standsInDouble q = false) (hfirst : first = false)
    (hagain : again = (!ps.isEmpty && width ≤ n && folds)) :
    returned folds n first (q :: .char ' ' :: ps) =
      q :: ((if again then [.char '\\', .char ' ', .char ' '] else [.char ' ']) ++
        returned folds n false ps) := by
  have hspace : standsInDouble (.char ' ') = true := by decide
  cases again with
  | true =>
    simp only [Bool.true_eq, Bool.and_eq_true, decide_eq_true_eq] at hagain
    obtain ⟨⟨hmore, hwidth⟩, hfolds⟩ := hagain
    cases ps with
    | nil => cases hmore
    | cons x back =>
      rw [hfirst, returned_strayed hq (by simp [hwidth, hfolds])]
      rfl
  | false =>
    have hcons : first = true ∨ spaceWithin (.char ' ' :: ps) = false ∨
        (folds && width ≤ n) = false := by
      cases ps with
      | nil => exact .inr (.inl rfl)
      | cons x back =>
        refine .inr (.inr ?_)
        rw [Bool.and_comm]
        simpa using hagain.symm
    rw [returned_cons hcons, returned_stands hspace]
    rfl

theorem stretches_escaped {folds first atEscape : Bool} {n column : Nat} {gap : Gap} {q : CodePoint}
    {ps : Text} (hn : 0 < n) (hq : standsInDouble q = false) (hcolumn : n ≤ column) :
    Stretches folds n gap first (q :: ps)
      (doubleFrom folds n first atEscape column (q :: ps)).1 := by
  obtain ⟨fold, hfold, hwrite⟩ := doubleFrom_escaped folds first atEscape n column hq ps
  have hlength := two_le_length_escape q
  have hlt : ps.length < (q :: ps).length := Nat.lt_succ_self _
  cases fold with
  | false =>
    -- A folded escape is the only place where a backslash strays.
    have hcons : first = true ∨ spaceWithin ps = false ∨ (folds && width ≤ n) = false := by
      cases first with
      | true => exact .inl rfl
      | false =>
        cases hspace : spaceWithin ps with
        | false => exact .inr (.inl rfl)
        | true =>
          right; right
          obtain ⟨x, back, rfl⟩ := spaceWithin_iff.mp hspace
          cases hwide : (folds && width ≤ n) with
          | false => rfl
          | true =>
            simp only [Bool.and_eq_true, decide_eq_true_eq] at hwide
            exact absurd (hfold.mpr ⟨rfl, List.cons_ne_nil _ _, hwide.1, by omega⟩)
              Bool.false_ne_true
    refine ⟨escape q, Text.ofChars gap.folded ++ [q], .none, true, _, ps, ?_, resumes_none ps, hlt,
      hwrite, ?_, ?_⟩
    · rw [if_neg Bool.false_ne_true]
      omega
    · rw [returned_cons hcons, List.append_assoc]
      rfl
    · intro reversed rest p
      rw [readDoubleFrom_escape]
      simp
  | true =>
    obtain ⟨hfirst, hne, hfolds, -⟩ := hfold.mp rfl
    obtain ⟨r, more, rfl⟩ := List.exists_cons_of_ne_nil hne
    by_cases hspace : r = .char ' '
    · subst hspace
      obtain ⟨column', hcolumn', hmore⟩ := doubleFrom_space folds n more
      have hhead : ((CodePoint.char ' ' :: more).head?.map fun q => q.is ' ').getD false = true := by
        simp [CodePoint.is]
      obtain ⟨again, hagain⟩ : ∃ b, b = (!more.isEmpty && width ≤ n && folds) := ⟨_, rfl⟩
      rw [hhead, if_pos rfl, if_pos rfl, if_pos rfl, hmore, ← hagain] at hwrite
      refine ⟨escape q ++ (foldDouble n true ++ ((if again then foldDouble n true else []) ++ [' '])),
        Text.ofChars gap.folded ++ q ::
          (if again then [.char '\\', .char ' ', .char ' '] else [.char ' ']),
        .none, false, column', more, hcolumn', resumes_none more, Nat.lt_succ_of_lt
          (Nat.lt_succ_self _), ?_, ?_, ?_⟩
      · rw [hwrite]
        simp
      · rw [returned_foldedSpace hq hfirst hagain]
        cases again <;> simp [Gap.folded, Text.ofChars]
      · intro reversed rest p
        rw [List.append_assoc, readDoubleFrom_escape, readDoubleFrom_foldedSpace hn,
          Place.after_append p (escape q)]
        cases again <;> simp
    · have hhead : ((r :: more).head?.map fun q => q.is ' ').getD false = false := by
        simp [CodePoint.is, hspace]
      rw [hhead, if_pos rfl, if_pos rfl, if_neg Bool.false_ne_true] at hwrite
      refine ⟨escape q ++ foldDouble n false, Text.ofChars gap.folded ++ [q], .breaks none [], true, n,
        r :: more, Nat.le_refl n, .inr ⟨rfl, by simp [hspace]⟩, hlt, ?_, ?_, ?_⟩
      · rw [hwrite, List.append_assoc]
        rfl
      · have hno : spaceWithin (r :: more) = false := by
          cases more <;> simp [spaceWithin, CodePoint.is, hspace]
        rw [returned_cons (.inr (.inl hno)), List.append_assoc]
        rfl
      · intro reversed rest p
        rw [List.append_assoc, readDoubleFrom_escape, foldDouble_eq, if_neg Bool.false_ne_true,
          List.append_nil, readDoubleFrom_hidden hn]
        simp [Gap.folded, Text.ofChars, Place.after_append]

/-- **What comes back from between double quotes.** Reading goes on from any place inside, and the
    rest of the text comes back with what strays into it. -/
theorem readDoubleFrom_doubleFrom {folds : Bool} {n : Nat} (hn : 0 < n) (rest : List Char) :
    ∀ (t : Text) {first atEscape : Bool} {column : Nat} {gap : Gap} {reversed : Text} {p : Place},
    n ≤ column → Resumes gap t →
    readDoubleFrom 0 [] gap reversed
        ((doubleFrom folds n first atEscape column t).1 ++ '"' :: rest) p =
      .ok (reversed.reverse ++ (Text.ofChars gap.folded ++ returned folds n first t),
        ⟨rest, p.after ((doubleFrom folds n first atEscape column t).1 ++ ['"'])⟩)
  | [], first, atEscape, column, gap, reversed, p => fun _ _ => by
      rw [doubleFrom, List.nil_append, readDoubleFrom, returned_nil]
      simp [Text.ofChars]
  | q :: ps, first, atEscape, column, gap, reversed, p => fun hcolumn hgap => by
      have stretches : Stretches folds n gap first (q :: ps)
          (doubleFrom folds n first atEscape column (q :: ps)).1 := by
        cases hq : standsInDouble q with
        | false => exact stretches_escaped hn hq hcolumn
        | true =>
          cases q with
          | surrogate s => cases hq
          | char c => exact stretches_stands hn hq hcolumn hgap
      obtain ⟨front, back, gap', atEscape', column', t', hcolumn', hgap', hlt, hwrite, hback, hread⟩
        := stretches
      rw [hwrite, List.append_assoc, hread, readDoubleFrom_doubleFrom hn rest t' hcolumn' hgap',
        hback]
      simp [Place.after_append]
termination_by t => t.length
decreasing_by exact hlt

end Conform.Markup
