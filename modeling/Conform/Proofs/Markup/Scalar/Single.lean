import Conform.Markup.Scalar.Quoted
import Conform.Proofs.Markup.Scalar.Gap

/-!
# Single quotes are read as they were written

Between single quotes a text keeps its breaks: the writer doubles a first line feed and indents the
line behind the breaks, and the reader undoes both. A single space may become a folded line, which
is read as a space again. The main statement is `readSingleFrom_singleFrom`.
-/

namespace Conform.Markup

open Style

/-! ## 1. Gaps between single quotes -/

section Gaps

variable {reversed : Text} {rest : List Char}

theorem readSingleFrom_spaces : ∀ (n : Nat) (gap : Gap) (p : Place),
    readSingleFrom gap reversed (List.replicate n ' ' ++ rest) p =
      readSingleFrom (gap.addSpaces n) reversed rest (p.after (List.replicate n ' '))
  | 0, _, _ => rfl
  | n + 1, gap, p => by
      rw [List.replicate_succ, List.cons_append, readSingleFrom, if_neg (by decide),
        if_pos (by decide), readSingleFrom_spaces n]
      · rfl
      · intro _ h
        cases h

theorem readSingleFrom_break {gap : Gap} {c : Char} (hc : isOwnBreak c = true)
    (hmarker : startsMarker rest = false) (p : Place) :
    readSingleFrom gap reversed (c :: rest) p =
      readSingleFrom (gap.addBreak c) reversed rest (p.next c) := by
  have hquote : c ≠ '\'' := by
    rintro rfl
    cases hc
  have hspacing : isSpacing c = false := by
    simp only [isOwnBreak, Bool.or_eq_true, decide_eq_true_eq] at hc
    rcases hc with (rfl | rfl) | rfl <;> rfl
  rw [readSingleFrom, if_neg hquote, hspacing, if_neg Bool.false_ne_true,
    isBreak_of_isOwnBreak hc, if_pos rfl, isHalfBreak_of_isOwnBreak hc, if_neg Bool.false_ne_true,
    hmarker, if_neg Bool.false_ne_true, readBreak_of_isOwnBreak hc]
  exact fun _ h => absurd h hquote

theorem startsMarker_break {c : Char} (hc : isOwnBreak c = true) (rest : List Char) :
    startsMarker (c :: rest) = false := by
  simp only [isOwnBreak, Bool.or_eq_true, decide_eq_true_eq] at hc
  rcases hc with (rfl | rfl) | rfl <;> rfl

/-- Breaks behind a first one are collected. -/
theorem readSingleFrom_breaks {n : Nat} (hn : 0 < n) {f : Option Char} :
    ∀ {bs cs : List Char} (p : Place), (∀ b ∈ bs, isOwnBreak b = true) →
    readSingleFrom (.breaks f cs) reversed (bs ++ List.replicate n ' ' ++ rest) p =
      readSingleFrom (.breaks f (bs.reverse ++ cs)) reversed rest
        (p.after (bs ++ List.replicate n ' '))
  | [], cs, p => fun _ => by
      rw [List.nil_append, readSingleFrom_spaces, Gap.addSpaces_breaks]
      rfl
  | b :: bs, cs, p => fun hbs => by
      obtain ⟨hb, hbs⟩ := List.forall_mem_cons.mp hbs
      have hmarker : startsMarker (bs ++ List.replicate n ' ' ++ rest) = false := by
        cases bs with
        | nil => exact startsMarker_spaces hn rest
        | cons b' bs' => exact startsMarker_break (hbs b' List.mem_cons_self) _
      rw [List.cons_append, List.cons_append, readSingleFrom_break hb hmarker, Gap.addBreak,
        readSingleFrom_breaks hn _ hbs, List.reverse_cons, List.append_assoc]
      rfl

/-- What is written for a gap of breaks is read as these breaks. -/
theorem readSingleFrom_breaksPiece {n : Nat} (hn : 0 < n) {bs : List Char}
    (hne : bs ≠ []) (hbs : ∀ b ∈ bs, isOwnBreak b = true) (p : Place) :
    ∃ gap : Gap, gap.folded = bs ∧
      readSingleFrom .none reversed (breaksPiece n bs ++ rest) p =
        readSingleFrom gap reversed rest (p.after (breaksPiece n bs)) := by
  obtain ⟨b, more, rfl⟩ := List.exists_cons_of_ne_nil hne
  obtain ⟨hb, hmore⟩ := List.forall_mem_cons.mp hbs
  by_cases hfeed : b = '\n'
  · refine ⟨.breaks (some '\n') (b :: more).reverse, by simp [Gap.folded], ?_⟩
    have hpiece : breaksPiece n (b :: more) = '\n' :: (b :: more ++ List.replicate n ' ') := by
      simp [breaksPiece, hfeed]
    have hmarker : startsMarker (b :: more ++ List.replicate n ' ' ++ rest) = false :=
      startsMarker_break hb _
    have hadd : Gap.none.addBreak '\n' = .breaks (some '\n') [] := rfl
    rw [hpiece, List.cons_append, readSingleFrom_break (by decide) hmarker, hadd,
      readSingleFrom_breaks hn _ hbs, List.append_nil]
    rfl
  · refine ⟨.breaks (some b) more.reverse, by simp [Gap.folded, hfeed], ?_⟩
    have hpiece : breaksPiece n (b :: more) = b :: (more ++ List.replicate n ' ') := by
      simp [breaksPiece, hfeed]
    have hmarker : startsMarker (more ++ List.replicate n ' ' ++ rest) = false := by
      cases more with
      | nil => exact startsMarker_spaces hn rest
      | cons b' bs' => exact startsMarker_break (hmore b' List.mem_cons_self) _
    have hadd : Gap.none.addBreak b = .breaks (some b) [] := rfl
    rw [hpiece, List.cons_append, readSingleFrom_break hb hmarker, hadd,
      readSingleFrom_breaks hn _ hmore, List.append_nil]
    rfl

end Gaps

/-! ## 2. What is written in front of a character -/

/-- A gap between single quotes: only spaces, or only breaks. -/
def IsGap (gap : List Char) : Prop :=
  (∀ c ∈ gap, c = ' ') ∨ (gap ≠ [] ∧ ∀ c ∈ gap, isOwnBreak c = true)

/-- What is written for a gap, newest first. -/
def singleFront (n : Nat) (fold : Bool) (gap : List Char) : List Char :=
  if gap.any isAnyBreak then breaksPiece n gap.reverse
  else if fold then newLine n
  else gap

theorem any_isAnyBreak_of_spaces {gap : List Char} (h : ∀ c ∈ gap, c = ' ') :
    gap.any isAnyBreak = false := by
  rw [List.any_eq_false]
  intro c hc
  rw [h c hc]
  decide

theorem any_isAnyBreak_of_breaks {gap : List Char} (hne : gap ≠ [])
    (h : ∀ c ∈ gap, isOwnBreak c = true) : gap.any isAnyBreak = true := by
  obtain ⟨b, more, rfl⟩ := List.exists_cons_of_ne_nil hne
  exact List.any_eq_true.mpr ⟨b, List.mem_cons_self,
    isAnyBreak_of_isOwnBreak (h b List.mem_cons_self)⟩

/-- A gap is read back, also if a single space is written as a folded line. -/
theorem readSingleFrom_front {n : Nat} {fold : Bool} {gap : List Char} (hn : 0 < n)
    (hgap : IsGap gap) (hfold : fold = true → gap.length = 1) (reversed : Text) (rest : List Char)
    (p : Place) : ∃ g : Gap, g.folded = gap.reverse ∧
      readSingleFrom .none reversed (singleFront n fold gap ++ rest) p =
        readSingleFrom g reversed rest (p.after (singleFront n fold gap)) := by
  unfold singleFront
  rcases hgap with hspaces | ⟨hne, hbreaks⟩
  · rw [any_isAnyBreak_of_spaces hspaces, if_neg Bool.false_ne_true]
    have hrep : gap = List.replicate gap.length ' ' := List.eq_replicate_of_mem hspaces
    cases fold with
    | true =>
      rw [if_pos rfl]
      refine ⟨.breaks (some '\n') [], ?_, ?_⟩
      · rw [hrep, hfold rfl]
        rfl
      · have hadd : Gap.none.addBreak '\n' = .breaks (some '\n') [] := rfl
        rw [newLine, List.cons_append, readSingleFrom_break (by decide) (startsMarker_spaces hn _),
          hadd, readSingleFrom_spaces, Gap.addSpaces_breaks]
        rfl
    | false =>
      rw [if_neg Bool.false_ne_true]
      refine ⟨Gap.addSpaces gap.length .none, ?_, ?_⟩
      · rw [Gap.folded_addSpaces_none, ← List.reverse_replicate, ← hrep]
      · rw [hrep, readSingleFrom_spaces, List.length_replicate]
  · rw [any_isAnyBreak_of_breaks hne hbreaks, if_pos rfl]
    refine readSingleFrom_breaksPiece hn (by simpa using hne) (fun b hb => ?_) p
    exact hbreaks b (List.mem_reverse.mp hb)

/-- A character of a word, with a quote doubled. -/
def singleOwn (c : Char) : List Char :=
  if c = '\'' then ['\'', '\''] else [c]

theorem readSingleFrom_own {gap : Gap} {reversed : Text} {rest : List Char} {c : Char}
    (hc : isShown c = true) (hspace : c ≠ ' ') (p : Place) :
    readSingleFrom gap reversed (singleOwn c ++ rest) p =
      readSingleFrom .none (pushAfter gap (.char c) reversed) rest (p.after (singleOwn c)) := by
  unfold singleOwn
  by_cases hquote : c = '\''
  · rw [if_pos hquote, hquote]
    rfl
  · rw [if_neg hquote, List.cons_append, List.nil_append, readSingleFrom, if_neg hquote,
      isSpacing_of_isShown hc hspace, if_neg Bool.false_ne_true, isBreak_of_isShown hc,
      if_neg Bool.false_ne_true]
    · rfl
    · exact fun _ h => absurd h hquote

theorem singleFrom_nil (folds : Bool) (n : Nat) (inner : Bool) (gap : List Char) (column : Nat) :
    (singleFrom folds n inner gap column []).1 = singleFront n false gap := by
  rw [singleFrom, singleFront]
  split <;> rfl

/-! ## 3. The whole scalar -/

theorem spaceAtBreak_append : ∀ (xs : List Char) {ys : List Char},
    spaceAtBreak (xs ++ ys) = false → spaceAtBreak ys = false
  | [], _ => id
  | x :: xs, ys => fun h => by
      refine spaceAtBreak_append xs ?_
      rw [List.cons_append] at h
      cases hmore : xs ++ ys with
      | nil => rfl
      | cons b bs =>
        rw [hmore, spaceAtBreak, Bool.or_eq_false_iff] at h
        exact h.2

/-- A gap goes on with a space or a break only if that is of its own kind, and the writer sees it
    so. -/
theorem isGap_cons {gap cs : List Char} {c : Char} (hgap : IsGap gap)
    (hc : c = ' ' ∨ isOwnBreak c = true) (h : spaceAtBreak (gap.reverse ++ c :: cs) = false) :
    IsGap (c :: gap) ∧ ((c = ' ' && !gap.any isAnyBreak) ||
      (isAnyBreak c && (gap.isEmpty || gap.any isAnyBreak))) = true := by
  cases gap with
  | nil =>
    rcases hc with rfl | hc
    · exact ⟨.inl (by simp), rfl⟩
    · exact ⟨.inr (by simp [hc]), by simp [isAnyBreak_of_isOwnBreak hc]⟩
  | cons g gs =>
    rw [List.reverse_cons, List.append_assoc] at h
    have hpair := spaceAtBreak_append _ h
    simp only [List.cons_append, List.nil_append, spaceAtBreak, Bool.or_eq_false_iff] at hpair
    obtain ⟨⟨hspace, hbreak⟩, -⟩ := hpair
    rcases hgap with hspaces | ⟨hne, hbreaks⟩
    · rcases hc with rfl | hc
      · exact ⟨.inl (by simpa using hspaces), by simp [any_isAnyBreak_of_spaces hspaces]⟩
      · simp [hspaces g List.mem_cons_self, isAnyBreak_of_isOwnBreak hc] at hspace
    · have hg := hbreaks g List.mem_cons_self
      rcases hc with rfl | hc
      · simp [isAnyBreak_of_isOwnBreak hg] at hbreak
      · refine ⟨.inr ⟨List.cons_ne_nil _ _, List.forall_mem_cons.mpr ⟨hc, hbreaks⟩⟩, ?_⟩
        simp [isAnyBreak_of_isOwnBreak hc, isAnyBreak_of_isOwnBreak hg]

theorem singleFrom_gap {folds inner : Bool} {n column : Nat} {gap cs : List Char} {c : Char}
    (h : ((c = ' ' && !gap.any isAnyBreak) ||
      (isAnyBreak c && (gap.isEmpty || gap.any isAnyBreak))) = true) :
    singleFrom folds n inner gap column (c :: cs) =
      singleFrom folds n inner (c :: gap) column cs := by
  rw [singleFrom]
  simp only [h, if_true]

/-- A character of a word is written behind the gap in front of it. -/
theorem singleFrom_word (folds inner : Bool) (n column : Nat) (gap cs : List Char) {c : Char}
    (hspace : c ≠ ' ') (hbreak : isAnyBreak c = false) :
    ∃ (fold : Bool) (column' : Nat), (fold = true → gap.length = 1) ∧
      (singleFrom folds n inner gap column (c :: cs)).1 =
        singleFront n fold gap ++ singleOwn c ++ (singleFrom folds n true [] column' cs).1 := by
  rw [singleFrom]
  simp only [hspace, hbreak, decide_false, Bool.false_and, Bool.or_false, if_neg
    Bool.false_ne_true]
  refine ⟨gap.length = 1 && width < column && folds && inner && !gap.any isAnyBreak, _,
    fun hfold => ?_, rfl⟩
  simp only [Bool.and_eq_true, decide_eq_true_eq] at hfold
  exact hfold.1.1.1.1

/-- A space behind breaks, or a break behind spaces, starts another gap. -/
theorem singleFrom_between (folds inner : Bool) (n column : Nat) (gap cs : List Char) {c : Char}
    (hgap : ((c = ' ' && !gap.any isAnyBreak) ||
      (isAnyBreak c && (gap.isEmpty || gap.any isAnyBreak))) = false)
    (hc : c = ' ' ∨ isAnyBreak c = true) :
    ∃ (fold : Bool) (column' : Nat), (singleFrom folds n inner gap column (c :: cs)).1 =
      singleFront n fold gap ++ (singleFrom folds n true [c] column' cs).1 := by
  have hbetween : (c = ' ' || isAnyBreak c) = true := by simpa using hc
  rw [singleFrom]
  simp only [hgap, hbetween, if_true, if_neg Bool.false_ne_true]
  exact ⟨gap.length = 1 && width < column && folds && inner && !gap.any isAnyBreak, _, rfl⟩

/-- What single quotes hold, if it has no next-line control. -/
theorem fitsSingle_chars {cs : List Char} (h : fitsSingle cs = true)
    (hproper : CodePoint.char '\x85' ∉ Text.ofChars cs) :
    (∀ c ∈ cs, isShown c = true ∨ isOwnBreak c = true) ∧ spaceAtBreak cs = false := by
  simp only [fitsSingle, Bool.and_eq_true, List.all_eq_true, Bool.or_eq_true,
    Bool.not_eq_true'] at h
  refine ⟨fun c hc => (h.1 c hc).imp_right fun hbreak => isOwnBreak_of_isAnyBreak hbreak ?_, h.2⟩
  rintro rfl
  exact hproper (List.mem_map_of_mem hc)

/-- Between single quotes every text without spaces at its breaks is read as it was written, behind
    a gap that is still to be written. -/
theorem readSingleFrom_singleFrom {folds : Bool} {n : Nat} {rest : List Char} (hn : 0 < n)
    (hrest : rest.head? ≠ some '\'') : ∀ {cs gap : List Char} {inner : Bool} {column : Nat}
    {reversed : Text} {p : Place}, (∀ c ∈ cs, isShown c = true ∨ isOwnBreak c = true) → IsGap gap →
    spaceAtBreak (gap.reverse ++ cs) = false →
    readSingleFrom .none reversed
        ((singleFrom folds n inner gap column cs).1 ++ '\'' :: rest) p =
      .ok (reversed.reverse ++ Text.ofChars (gap.reverse ++ cs),
        ⟨rest, p.after ((singleFrom folds n inner gap column cs).1 ++ ['\''])⟩)
  | [], gap, inner, column, reversed, p => fun _ hgap _ => by
      obtain ⟨g, hg, hread⟩ := readSingleFrom_front hn hgap
        (fun h => absurd h Bool.false_ne_true) reversed ('\'' :: rest) p
      rw [singleFrom_nil, hread, readSingleFrom, if_pos rfl, hg, Place.after_append]
      · simp [Text.ofChars]
      · intro cs _ h
        exact hrest (by rw [h]; rfl)
  | c :: cs, gap, inner, column, reversed, p => fun hcs hgap hspace => by
      obtain ⟨hc, hcs⟩ := List.forall_mem_cons.mp hcs
      by_cases hword : c = ' ' ∨ isOwnBreak c = true
      · obtain ⟨hgap', hgoes⟩ := isGap_cons hgap hword hspace
        rw [singleFrom_gap hgoes, readSingleFrom_singleFrom hn hrest hcs hgap']
        · simp
        · simpa using hspace
      · obtain ⟨hne, hbreak⟩ := not_or.mp hword
        have hshown : isShown c = true := hc.resolve_right hbreak
        obtain ⟨fold, column', hfold, hwrite⟩ := singleFrom_word folds inner n column gap cs hne
          (isAnyBreak_of_isShown hshown)
        obtain ⟨g, hg, hread⟩ := readSingleFrom_front hn hgap hfold reversed
          (singleOwn c ++ ((singleFrom folds n true [] column' cs).1 ++ '\'' :: rest)) p
        rw [hwrite, List.append_assoc, List.append_assoc, hread, readSingleFrom_own hshown hne,
          readSingleFrom_singleFrom hn hrest hcs (.inl (by simp))]
        · simp [pushAfter, hg, Text.ofChars, Place.after_append]
        · refine spaceAtBreak_append (gap.reverse ++ [c]) ?_
          simpa using hspace

end Conform.Markup
