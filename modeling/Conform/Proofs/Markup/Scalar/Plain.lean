import Conform.Markup.Scalar.Plain
import Conform.Proofs.Markup.Scalar.Gap

/-!
# Plain scalars are read as they were written

A text that fits a plain scalar is read back whatever the columns were and wherever its lines were
folded (`readPlainFrom_plainFrom`), and reading stops where the scalar ends: in front of the colon of
a key, or on the next line, which is not indented enough.
-/

namespace Conform.Markup

open Style

/-! ## 1. Within a scalar -/

section Inside

variable {indent : Int} {reversed rest : List Char}

theorem readPlainFrom_spaces : ∀ (n : Nat) (gap : Gap) (p : Place),
    readPlainFrom false indent gap reversed (List.replicate n ' ' ++ rest) p =
      readPlainFrom false indent (gap.addSpaces n) reversed rest (p.after (List.replicate n ' '))
  | 0, _, _ => rfl
  | n + 1, gap, p => by
      rw [List.replicate_succ, List.cons_append, readPlainFrom, if_pos rfl,
        readPlainFrom_spaces n]
      rfl

theorem readPlainFrom_newLine {n : Nat} (hn : 0 < n) (p : Place) :
    readPlainFrom false indent .none reversed (newLine n ++ rest) p =
      readPlainFrom false indent (.breaks (some '\n') []) reversed rest (p.after (newLine n)) := by
  rw [newLine, List.cons_append, readPlainFrom, if_neg (by decide), if_pos (by decide),
    isHalfBreak_feed, if_neg Bool.false_ne_true, startsMarker_spaces hn, if_neg Bool.false_ne_true,
    readPlainFrom_spaces]
  simp [Gap.addBreak]

/-- A character of a word goes on with the scalar, unless it is a hash sign behind a gap or too far
    to the left. -/
theorem readPlainFrom_shown {gap : Gap} {c : Char} {p : Place} (hc : isShown c = true)
    (hspace : c ≠ ' ') (hcolon : c = ':' → endsWord rest = false)
    (hgap : gap ≠ .none → c ≠ '#' ∧ indent ≤ p.column) :
    readPlainFrom false indent gap reversed (c :: rest) p =
      readPlainFrom false indent .none (c :: (gap.folded.reverse ++ reversed)) rest (p.next c) := by
  have htab : c ≠ '\t' := by
    rintro rfl
    exact absurd hc (by decide)
  have hends : endsPlain false c rest = false := by
    by_cases h : c = ':'
    · simp [endsPlain, htab, hcolon h]
    · simp [endsPlain, htab, h]
  have hstops : (gap != .none && (c = '#' || (!false && (p.column : Int) < indent))) = false := by
    by_cases h : gap = .none
    · simp [h]
    · obtain ⟨hhash, hcolumn⟩ := hgap h
      simp [h, hhash, hcolumn]
  rw [readPlainFrom, if_neg hspace, isBreak_of_isShown hc, if_neg Bool.false_ne_true]
  simp only [hends, hstops, Bool.or_false, if_neg Bool.false_ne_true]

end Inside

/-- What is written in front of a word: its spaces, or a folded line instead of a single one. -/
def plainFront (folds : Bool) (n spaces column : Nat) : List Char :=
  if spaces = 1 && width < column && folds then newLine n else List.replicate spaces ' '

theorem plainFrom_cons (folds : Bool) (n spaces column : Nat) (c : Char) (cs : List Char) :
    (plainFrom folds n spaces column (c :: cs)).1 =
      if c = ' ' then (plainFrom folds n (spaces + 1) column cs).1
      else plainFront folds n spaces column ++ c ::
        (plainFrom folds n 0
          ((if spaces = 1 && width < column && folds then n else column + spaces) + 1) cs).1 := by
  rw [plainFrom]
  split <;> rfl

/-- A word behind its front is read as the word behind its spaces. -/
theorem readPlainFrom_front {folds : Bool} {n spaces column : Nat} {reversed rest : List Char}
    {c : Char} {indent : Int} {p : Place} (hn : 0 < n) (hindent : indent ≤ n)
    (hp : indent ≤ p.column) (hc : isShown c = true) (hspace : c ≠ ' ')
    (hcolon : c = ':' → endsWord rest = false) (hhash : spaces ≠ 0 → c ≠ '#') :
    readPlainFrom false indent .none reversed (plainFront folds n spaces column ++ c :: rest) p =
      readPlainFrom false indent .none (c :: (List.replicate spaces ' ' ++ reversed)) rest
        ((p.after (plainFront folds n spaces column)).next c) := by
  unfold plainFront
  split
  · rename_i hfold
    have hone : spaces = 1 := by simpa using (Bool.and_eq_true_iff.mp
      (Bool.and_eq_true_iff.mp hfold).1).1
    rw [readPlainFrom_newLine hn, readPlainFrom_shown hc hspace hcolon, hone]
    · rfl
    · exact fun _ => ⟨hhash (by omega), by rw [Place.column_after_newLine]; exact hindent⟩
  · rw [readPlainFrom_spaces, readPlainFrom_shown hc hspace hcolon]
    · rw [Gap.folded_addSpaces_none, List.reverse_replicate]
    · intro hgap
      refine ⟨hhash fun h => hgap (Gap.addSpaces_eq_none_iff.mpr h), ?_⟩
      rw [Place.after_spaces]
      exact Int.le_trans hp (Int.ofNat_le.mpr (Nat.le_add_right _ _))

theorem column_after_front {folds : Bool} {n spaces column : Nat} {indent : Int} {p : Place}
    {c : Char} (hindent : indent ≤ n) (hp : indent ≤ p.column) (hc : isShown c = true) :
    indent ≤ ((p.after (plainFront folds n spaces column)).next c).column := by
  have hfront : indent ≤ (p.after (plainFront folds n spaces column)).column := by
    unfold plainFront
    split
    · rw [Place.column_after_newLine]
      exact hindent
    · rw [Place.after_spaces]
      exact Int.le_trans hp (Int.ofNat_le.mpr (Nat.le_add_right _ _))
  rw [Place.next_of_inline (isInline_of_isShown hc)]
  exact Int.le_trans hfront (Int.ofNat_le.mpr (Nat.le_succ _))

/-! ## 2. A whole scalar -/

/-- The first character that is written is the first one of the text, and so is the second unless
    a word ends between them. -/
theorem endsWord_plainFrom {folds : Bool} {n column : Nat} {cs rest : List Char}
    (hshown : ∀ c ∈ cs, isShown c = true) (hgap : atGap cs = false) :
    endsWord ((plainFrom folds n 0 column cs).1 ++ rest) = false := by
  cases cs with
  | nil => cases hgap
  | cons c cs =>
    have hc := hshown c List.mem_cons_self
    have hspace : c ≠ ' ' := by
      rintro rfl
      cases hgap
    rw [plainFrom_cons, if_neg hspace]
    simp [plainFront, endsWord, isSpacing_of_isShown hc hspace, isBreak_of_isShown hc]

theorem readPlainFrom_plainFrom {folds : Bool} {n : Nat} {indent : Int} {rest : List Char}
    (hn : 0 < n) (hindent : indent ≤ n) : ∀ {cs reversed : List Char} {spaces column : Nat}
    {previous : Char} {p : Place}, (∀ c ∈ cs, isShown c = true) →
    goesOnPlainly previous cs = true → (spaces ≠ 0 → previous = ' ') →
    (cs = [] → spaces = 0) → cs.getLast? ≠ some ' ' → indent ≤ p.column →
    readPlainFrom false indent .none reversed ((plainFrom folds n spaces column cs).1 ++ rest) p =
      readPlainFrom false indent .none
        ((List.replicate spaces ' ' ++ cs).reverse ++ reversed) rest
        (p.after (plainFrom folds n spaces column cs).1)
  | [], reversed, spaces, column, previous, p => fun _ _ _ hnil _ _ => by
      rw [hnil rfl]
      rfl
  | c :: cs, reversed, spaces, column, previous, p => fun hshown hgoes hprev _ hlast hp => by
      obtain ⟨hc, hcs⟩ := List.forall_mem_cons.mp hshown
      simp only [goesOnPlainly, Bool.and_eq_true, Bool.not_eq_true'] at hgoes
      obtain ⟨⟨hcolon, hhash⟩, hmore⟩ := hgoes
      have hlast' : cs.getLast? ≠ some ' ' := by
        cases cs with
        | nil => simp
        | cons d ds => simpa using hlast
      rw [plainFrom_cons]
      by_cases hspace : c = ' '
      · rw [if_pos hspace, readPlainFrom_plainFrom hn hindent hcs hmore (fun _ => hspace) _ hlast' hp,
          hspace, List.replicate_succ', List.append_assoc]
        · rfl
        · rintro rfl
          rw [hspace] at hlast
          exact absurd rfl hlast
      · have hends : c = ':' → endsWord ((plainFrom folds n 0
            ((if spaces = 1 && width < column && folds then n else column + spaces) + 1) cs).1
              ++ rest) = false := by
          intro h
          refine endsWord_plainFrom hcs ?_
          simpa [h] using hcolon
        have hhash' : spaces ≠ 0 → c ≠ '#' := by
          intro hs h
          rw [hprev hs, h] at hhash
          cases hhash
        rw [if_neg hspace, List.append_assoc, List.cons_append,
          readPlainFrom_front hn hindent hp hc hspace hends hhash',
          readPlainFrom_plainFrom hn hindent hcs hmore (fun h => absurd rfl h) (fun _ => rfl) hlast'
            (column_after_front hindent hp hc), Place.after_append, Place.after_cons]
        simp [List.reverse_append]

/-- The characters of a text that fits a plain scalar. -/
theorem fitsPlain_iff {cs : List Char} : fitsPlain cs = true ↔
    (∀ c ∈ cs, isShown c = true) ∧ startsPlainly cs = true ∧ goesOnPlainly ' ' cs = true ∧
      cs.getLast? ≠ some ' ' := by
  cases cs with
  | nil => simp [fitsPlain, startsPlainly]
  | cons c cs =>
    simp only [fitsPlain, Bool.and_eq_true, List.all_eq_true, bne_iff_ne, and_assoc]
    refine and_congr_right fun _ => and_congr_right fun hstart => and_congr_left' ?_
    have hfirst : goesOnPlainly ' ' (c :: cs) = goesOnPlainly c cs := by
      unfold startsPlainly at hstart
      split at hstart
      · cases hstart
      · cases hstart
      · cases hstart
      · rename_i d ds _ _ heq
        cases heq
        simp only [Bool.and_eq_true, Bool.not_eq_true', bne_iff_ne] at hstart
        obtain ⟨⟨hopen, hspace⟩, hindicator⟩ := hstart
        have hhash : c ≠ '#' := by
          rintro rfl
          exact absurd hopen (by decide)
        have hcolon : (c = ':' && atGap cs) = false := by
          by_cases h : c = ':'
          · simpa [h] using hindicator
          · simp [h]
        simp [goesOnPlainly, hhash, hcolon]
    rw [hfirst]

/-- A scalar is written with its first character in front. -/
theorem plainFrom_first (folds : Bool) (n column : Nat) {cs : List Char}
    (h : fitsPlain cs = true) : ∃ c more column', cs = c :: more ∧ c ≠ ' ' ∧
      (plainFrom folds n 0 column cs).1 = c :: (plainFrom folds n 0 column' more).1 := by
  obtain ⟨hshown, hstart, -, -⟩ := fitsPlain_iff.mp h
  cases cs with
  | nil => cases hstart
  | cons c more =>
    have hspace : c ≠ ' ' := by
      rintro rfl
      exact absurd hstart (by simp [startsPlainly])
    refine ⟨c, more, column + 1, rfl, hspace, ?_⟩
    rw [plainFrom_cons, if_neg hspace]
    simp [plainFront]

/-- The first character may stand where the block does, all others are further in. -/
theorem readPlain_plainFrom {folds : Bool} {n column : Nat} {indent : Int} {cs rest : List Char}
    {p : Place} (hn : 0 < n) (hindent : indent ≤ n) (hp : indent ≤ p.column + 1)
    (h : fitsPlain cs = true) :
    readPlain false indent ⟨(plainFrom folds n 0 column cs).1 ++ rest, p⟩ =
      readPlainFrom false indent .none cs.reverse rest
        (p.after (plainFrom folds n 0 column cs).1) := by
  obtain ⟨hshown, -, hgoes, hlast⟩ := fitsPlain_iff.mp h
  obtain ⟨c, more, column', rfl, hspace, hwrite⟩ := plainFrom_first folds n column h
  obtain ⟨hc, hmore⟩ := List.forall_mem_cons.mp hshown
  simp only [goesOnPlainly, Bool.and_eq_true, Bool.not_eq_true'] at hgoes
  have hcolon : c = ':' →
      endsWord ((plainFrom folds n 0 column' more).1 ++ rest) = false := fun hcolon =>
    endsWord_plainFrom hmore (by simpa [hcolon] using hgoes.1.1)
  have hcolumn : indent ≤ ((p.next c).column : Int) := by
    rw [Place.next_of_inline (isInline_of_isShown hc)]
    exact hp
  have hend : more.getLast? ≠ some ' ' := by
    cases more with
    | nil => simp
    | cons d more => simpa using hlast
  rw [readPlain]
  simp only [hwrite, List.cons_append]
  rw [readPlainFrom_shown hc hspace hcolon (fun h => absurd rfl h),
    readPlainFrom_plainFrom hn hindent hmore hgoes.2 (fun h => absurd rfl h) (fun _ => rfl) hend
      hcolumn]
  simp [Gap.folded]

/-! ## 3. Behind a scalar -/

/-- A scalar ends in front of the colon of a key. -/
theorem readPlainFrom_colon {indent : Int} {reversed rest : List Char} (h : endsWord rest = true)
    (p : Place) : readPlainFrom false indent .none reversed (':' :: rest) p =
      ⟨reversed.reverse, false, ⟨':' :: rest, p⟩⟩ := by
  rw [readPlainFrom, if_neg (by decide), if_neg (by decide)]
  simp [endsPlain, h, Gap.hasBreak]

/-- A scalar ends on the next line if that is not indented enough or has a marker, with the cursor
    in front of the next token or of nothing but spaces before it. -/
theorem readPlainFrom_newLine_end {indent : Int} (reversed : List Char) {rest : List Char} {j : Nat}
    (hsolid : Solid rest) (hj : j < indent ∨ (j = 0 ∧ startsMarker rest = true)) (p : Place) :
    ∃ c : Cursor, readPlainFrom false indent .none reversed (newLine j ++ rest) p =
        ⟨reversed.reverse, true, c⟩ ∧
      c.rest.length < (newLine j ++ rest).length ∧
      ∃ b, skipTrivia false false c.rest c.place = (b, ⟨rest, p.after (newLine j)⟩) := by
  rw [newLine, List.cons_append, readPlainFrom, if_neg (by decide), if_pos (by decide),
    isHalfBreak_feed, if_neg Bool.false_ne_true]
  cases hmarker : startsMarker (List.replicate j ' ' ++ rest) with
  | true =>
    rw [if_pos rfl]
    exact ⟨_, rfl, Nat.lt_succ_self _, false, skipTrivia_spaces hsolid false j _⟩
  | false =>
    have hgap : Gap.none.addBreak '\n' = .breaks (some '\n') [] := rfl
    have hin : (j : Int) < indent := by
      rcases hj with hj | ⟨rfl, hrest⟩
      · exact hj
      · rw [List.replicate_zero, List.nil_append, hrest] at hmarker
        cases hmarker
    rw [if_neg Bool.false_ne_true, readPlainFrom_spaces, readBreak_feed, hgap,
      Gap.addSpaces_breaks]
    refine ⟨⟨rest, p.after (newLine j)⟩, ?_, ?_, false, skipTrivia_solid hsolid false _⟩
    · cases rest with
      | nil => rfl
      | cons c cs =>
        obtain ⟨hspace, -, hbreak⟩ := hsolid
        have hcolumn : ((p.after (newLine j)).column : Int) < indent := by
          rw [Place.column_after_newLine]
          exact hin
        rw [readPlainFrom, if_neg hspace, hbreak, if_neg Bool.false_ne_true]
        rw [newLine, Place.after_cons] at hcolumn
        simp [hcolumn, Gap.hasBreak, newLine]
    · simp only [List.length_cons, List.length_append, List.length_replicate]
      omega

end Conform.Markup
