import Conform.Proofs.Markup.PlainLines
import Conform.Proofs.Markup.Scalar.Escape

/-!
# Scalars with plain line ends

The readers of scalars go over the ends of lines. Each of them takes a return, a line feed, or both
together, for the same break, and stays where it is at the first half of one. So in the run over plain
line ends it makes the same text of what it reads, or fails alike (`readPlain_plain`,
`readQuoted_plain`, `readBlock_plain`).
-/

namespace Conform.Markup

variable {c : Cursor} {cs : List Char}

/-! ## 1. Scalars that are not in blocks -/

theorem skipTrivia_plainLines : ∀ (cs : List Char) (inComment broken : Bool) (p : Place),
    skipTrivia inComment broken (plainLines cs) p = behind (skipTrivia inComment broken cs p)
  | [], _, _, _ => rfl
  | a :: cs, inComment, broken, p => by
      rcases plainLines_cases a cs with ⟨hbreak, heq⟩ | ⟨hbreak, hhalf, heq⟩ | ⟨hbreak, hhalf, heq⟩
      · rw [heq, skipTrivia, skipTrivia, hbreak, if_neg Bool.false_ne_true,
          if_neg Bool.false_ne_true]
        split
        · exact skipTrivia_plainLines cs _ _ _
        · split
          · exact skipTrivia_plainLines cs _ _ _
          · rw [← heq]
            rfl
      · rw [heq, skipTrivia, hbreak, if_pos rfl, hhalf, if_pos rfl]
        exact skipTrivia_plainLines cs _ _ _
      · rw [heq, skipTrivia, skipTrivia, isBreak_plainEnd, hbreak, if_pos rfl, if_pos rfl,
          isHalfBreak_plainEnd, hhalf, if_neg Bool.false_ne_true, if_neg Bool.false_ne_true,
          next_plainEnd]
        exact skipTrivia_plainLines cs _ _ _

theorem endsPlain_plainLines (inFlow : Bool) (a : Char) (cs : List Char) :
    endsPlain inFlow a (plainLines cs) = endsPlain inFlow a cs := by
  have hflow : ∀ d, ",[]\x7b\x7d".toList.contains (plainEnd d) = ",[]\x7b\x7d".toList.contains d :=
    apply_plainEnd (by decide)
  simp only [endsPlain, endsWord_plainLines, head?_plainLines, Option.map_map, Function.comp_def,
    hflow]

namespace PlainScalar

/-- A plain scalar of the second run. -/
def plain (r : PlainScalar) : PlainScalar :=
  { r with after := r.after.plain }

end PlainScalar

theorem ne_space {a : Char} (h : isBreak a = true) : a ≠ ' ' := by
  rintro rfl
  cases h

/-- What ends a line is no spacing in front of one. -/
theorem not_margin {a : Char} (h : isBreak a = true) (inside : Bool) :
    (decide (a = ' ') && inside) = false := by
  rw [decide_eq_false (ne_space h), Bool.false_and]

theorem readPlainFrom_plainLines {inFlow : Bool} {indent : Int} : ∀ (cs : List Char) (gap : Gap)
    (reversed : List Char) (p : Place),
    readPlainFrom inFlow indent gap reversed (plainLines cs) p =
      (readPlainFrom inFlow indent gap reversed cs p).plain
  | [], _, _, _ => rfl
  | a :: cs, gap, reversed, p => by
      rcases plainLines_cases a cs with ⟨hbreak, heq⟩ | ⟨hbreak, hhalf, heq⟩ | ⟨hbreak, hhalf, heq⟩
      · rw [heq, readPlainFrom, readPlainFrom, hbreak, if_neg Bool.false_ne_true,
          if_neg Bool.false_ne_true, endsPlain_plainLines]
        split
        · exact readPlainFrom_plainLines cs _ _ _
        · dsimp only
          split
          · rw [← heq]
            rfl
          · exact readPlainFrom_plainLines cs _ _ _
      · rw [heq, readPlainFrom, if_neg (ne_space hbreak), hbreak, if_pos rfl, hhalf, if_pos rfl]
        exact readPlainFrom_plainLines cs _ _ _
      · rw [heq, readPlainFrom, readPlainFrom,
          if_neg (ne_space ((isBreak_plainEnd a).trans hbreak)), if_neg (ne_space hbreak),
          isBreak_plainEnd, hbreak, if_pos rfl, if_pos rfl,
          isHalfBreak_plainEnd, hhalf, if_neg Bool.false_ne_true, if_neg Bool.false_ne_true,
          startsMarker_plainLines, readBreak_plainEnd, next_plainEnd]
        split
        · rfl
        · exact readPlainFrom_plainLines cs _ _ _

theorem readPlain_plain (inFlow : Bool) (indent : Int) (c : Cursor) :
    readPlain inFlow indent c.plain = (readPlain inFlow indent c).plain :=
  readPlainFrom_plainLines c.rest _ _ _

theorem readSingleFrom_close {gap : Gap} {reversed : Text} {p : Place}
    (h : cs.head? ≠ some '\'') : readSingleFrom gap reversed ('\'' :: cs) p =
      .ok (((Text.ofChars gap.folded).reverse ++ reversed).reverse, ⟨cs, p.next '\''⟩) := by
  rw [readSingleFrom, if_pos rfl]
  rintro rest - rfl
  exact h rfl

theorem readSingleFrom_of_ne {gap : Gap} {reversed : Text} {p : Place} {a : Char} (ha : a ≠ '\'') :
    readSingleFrom gap reversed (a :: cs) p =
      if isSpacing a then readSingleFrom (gap.addSpacing a) reversed cs (p.next a)
      else if isBreak a then
        if isHalfBreak a cs then readSingleFrom gap reversed cs p
        else if startsMarker cs then .error .malformed
        else readSingleFrom (gap.addBreak (readBreak a)) reversed cs (p.next a)
      else readSingleFrom .none (pushAfter gap (.char a) reversed) cs (p.next a) := by
  rw [readSingleFrom, if_neg ha]
  exact fun _ h => absurd h ha

/-- A return or a line feed is neither spacing nor a quote. -/
theorem plainEnd_of_isBreak {a : Char} (h : isBreak a = true) :
    isSpacing (plainEnd a) = false ∧ ∀ b, isBreak b = false → plainEnd a ≠ b := by
  have hspacing : breaks.any isSpacing = false := by decide
  rw [← isBreak_plainEnd] at h
  refine ⟨Bool.eq_false_iff.mpr (List.any_eq_false.mp hspacing _ (mem_breaks_iff.mpr h)), ?_⟩
  rintro b hb rfl
  rw [h] at hb
  cases hb

/-- A break between single quotes, whichever it is. -/
theorem readSingleFrom_plainBreak {gap : Gap} {reversed : Text} {p : Place} {a : Char}
    (hhalf : ¬ isHalfBreak a cs = true) (hbreak : isBreak a = true) :
    readSingleFrom gap reversed (plainLines (a :: cs)) p =
      if startsMarker cs then .error .malformed
      else readSingleFrom (gap.addBreak (readBreak a)) reversed (plainLines cs) (p.next a) := by
  obtain ⟨hspacing, hother⟩ := plainEnd_of_isBreak hbreak
  rw [plainLines_break hhalf hbreak, readSingleFrom_of_ne (hother '\'' (by decide)), hspacing,
    isBreak_plainEnd, hbreak, isHalfBreak_plainEnd, startsMarker_plainLines, readBreak_plainEnd,
    next_plainEnd]
  rfl

theorem readSingleFrom_plainLines {gap : Gap} {reversed : Text} {p : Place} :
    readSingleFrom gap reversed (plainLines cs) p =
      (readSingleFrom gap reversed cs p).map behind := by
  fun_induction readSingleFrom gap reversed cs p with
  | case1 => rfl
  | case2 gap reversed cs p ih =>
    rw [plainLines_cons (by decide), plainLines_cons (by decide), readSingleFrom]
    exact ih
  | case3 gap reversed cs p hquote =>
    have hclose : (plainLines cs).head? ≠ some '\'' := fun h => by
      obtain ⟨rest, hrest⟩ := List.head?_eq_some_iff.mp ((head?_plainLines_iff (by decide)).mp h)
      exact hquote rest rfl hrest
    rw [plainLines_cons (by decide), readSingleFrom_close hclose]
    rfl
  | case4 gap reversed a cs p _ hne hspacing ih =>
    have hbreak : isBreak a = false := isBreak_of_class (by decide) hspacing
    rw [plainLines_cons hbreak, readSingleFrom_of_ne hne, if_pos hspacing]
    exact ih
  | case5 gap reversed a cs p _ hne _ hbreak hhalf ih =>
    rw [plainLines_half hhalf]
    exact ih
  | case6 gap reversed a cs p _ hne _ hbreak hhalf hmarker =>
    rw [readSingleFrom_plainBreak hhalf hbreak, if_pos hmarker]
    rfl
  | case7 gap reversed a cs p _ hne _ hbreak hhalf hmarker ih =>
    rw [readSingleFrom_plainBreak hhalf hbreak, if_neg hmarker]
    exact ih
  | case8 gap reversed a cs p _ hne hspacing hbreak ih =>
    rw [plainLines_cons (Bool.eq_false_iff.mpr hbreak), readSingleFrom_of_ne hne, if_neg hspacing,
      if_neg hbreak]
    exact ih

/-- What goes on between double quotes if it is neither a quote nor an escape. -/
theorem readDoubleFrom_of_ne {digits : List Char} {gap : Gap} {reversed : Text} {p : Place}
    {a : Char} (hquote : a ≠ '"') (hescape : a ≠ '\\') :
    readDoubleFrom 0 digits gap reversed (a :: cs) p =
      if isSpacing a then readDoubleFrom 0 [] (gap.addSpacing a) reversed cs (p.next a)
      else if isBreak a then
        if isHalfBreak a cs then readDoubleFrom 0 [] gap reversed cs p
        else if startsMarker cs then .error .malformed
        else readDoubleFrom 0 [] (gap.addBreak (readBreak a)) reversed cs (p.next a)
      else readDoubleFrom 0 [] .none (pushAfter gap (.char a) reversed) cs (p.next a) := by
  rw [readDoubleFrom, if_neg hquote]
  simp only [hescape, if_false]

/-- The digits of an escape are no matter where none is missing. -/
theorem readDoubleFrom_digits_irrelevant (digits : List Char) {gap : Gap} {reversed : Text}
    {p : Place} :
    readDoubleFrom 0 digits gap reversed cs p = readDoubleFrom 0 [] gap reversed cs p := by
  cases cs with
  | nil => rfl
  | cons a cs => rw [readDoubleFrom, readDoubleFrom]

/-- A break between double quotes, whichever it is. -/
theorem readDoubleFrom_plainBreak {digits : List Char} {gap : Gap} {reversed : Text} {p : Place}
    {a : Char} (hhalf : ¬ isHalfBreak a cs = true) (hbreak : isBreak a = true) :
    readDoubleFrom 0 digits gap reversed (plainLines (a :: cs)) p =
      if startsMarker cs then .error .malformed
      else readDoubleFrom 0 [] (gap.addBreak (readBreak a)) reversed (plainLines cs) (p.next a) := by
  obtain ⟨hspacing, hother⟩ := plainEnd_of_isBreak hbreak
  rw [plainLines_break hhalf hbreak,
    readDoubleFrom_of_ne (hother '"' (by decide)) (hother '\\' (by decide)), hspacing,
    isBreak_plainEnd, hbreak, isHalfBreak_plainEnd, startsMarker_plainLines, readBreak_plainEnd,
    next_plainEnd]
  rfl

/-- A break behind a backslash, whichever it is: a return and the line feed behind it are one. -/
theorem readDoubleFrom_plainHidden {digits : List Char} {gap : Gap} {reversed : Text} {p : Place}
    {e : Char} (hletter : letterEscape? e = none) (hwidth : escapeWidth? e = none)
    (hbreak : isBreak e = true) :
    readDoubleFrom 0 digits gap reversed (plainLines ('\\' :: e :: cs)) p =
      let rest := if isHalfBreak e cs then cs.drop 1 else cs
      if startsMarker rest then .error .malformed
      else readDoubleFrom 0 [] (.breaks none []) ((Text.ofChars gap.folded).reverse ++ reversed)
        (plainLines rest) ((p.next '\\').next e) := by
  rw [plainLines_cons (by decide)]
  by_cases hhalf : isHalfBreak e cs = true
  · obtain ⟨rfl, rest, rfl⟩ := isHalfBreak_iff.mp hhalf
    rw [plainLines_pair, readDoubleFrom_hides rfl rfl]
    simp only [isHalfBreak_feed, Bool.false_eq_true, if_false, startsMarker_plainLines]
    rfl
  · rw [plainLines_break hhalf hbreak, readDoubleFrom_hides
      ((apply_plainEnd (by decide) e).trans hletter) ((apply_plainEnd (by decide) e).trans hwidth)]
    simp only [isHalfBreak_plainEnd, isBreak_plainEnd, hbreak, startsMarker_plainLines, next_plainEnd,
      hhalf, Bool.false_eq_true, if_false, if_true]

theorem isBreak_of_hexDigit {a : Char} (h : ¬ (baseDigit? 16 a).isNone = true) :
    isBreak a = false :=
  isBreak_of_class (q := fun d => (baseDigit? 16 d).isSome) (by decide)
    (by simpa [Option.isSome_iff_ne_none] using h)

theorem readDoubleFrom_plainLines {missing : Nat} {digits : List Char} {gap : Gap}
    {reversed : Text} {p : Place} :
    readDoubleFrom missing digits gap reversed (plainLines cs) p =
      (readDoubleFrom missing digits gap reversed cs p).map behind := by
  fun_induction readDoubleFrom missing digits gap reversed cs p with
  | case1 => rfl
  | case2 digits gap reversed a cs p more hnone =>
    have hnone' : (baseDigit? 16 (plainEnd a)).isNone = true := by
      rwa [apply_plainEnd (f := fun d => (baseDigit? 16 d).isNone) (by decide)]
    obtain ⟨rest, hrest⟩ := List.head?_eq_some_iff.mp (head?_plainLines (a :: cs))
    rw [hrest, readDoubleFrom, if_pos hnone']
    rfl
  | case3 digits gap reversed a cs p hsome ih =>
    rw [plainLines_cons (isBreak_of_hexDigit hsome), readDoubleFrom, if_neg hsome, if_pos rfl]
    cases numericEscape (a :: digits).reverse with
    | error f => rfl
    | ok q => exact ih q
  | case4 digits gap reversed a cs p more hsome hmore ih =>
    rw [plainLines_cons (isBreak_of_hexDigit hsome), readDoubleFrom, if_neg hsome, if_neg hmore]
    exact ih
  | case5 =>
    rw [plainLines_cons (by decide), readDoubleFrom]
    rfl
  | case6 digits gap reversed a cs p hquote hspacing ih =>
    have hbreak : isBreak a = false := isBreak_of_class (by decide) hspacing
    have hescape : a ≠ '\\' := by
      rintro rfl
      cases hspacing
    rw [plainLines_cons hbreak, readDoubleFrom_of_ne hquote hescape, if_pos hspacing]
    exact ih
  | case7 digits gap reversed a cs p hquote _ hbreak hhalf ih =>
    rw [plainLines_half hhalf, readDoubleFrom_digits_irrelevant]
    exact ih
  | case8 digits gap reversed a cs p hquote _ hbreak hhalf hmarker =>
    rw [readDoubleFrom_plainBreak hhalf hbreak, if_pos hmarker]
    rfl
  | case9 digits gap reversed a cs p hquote _ hbreak hhalf hmarker ih =>
    rw [readDoubleFrom_plainBreak hhalf hbreak, if_neg hmarker]
    exact ih
  | case10 =>
    rw [plainLines_cons (by decide), readDoubleFrom]
    rfl
  | case18 digits gap reversed a cs p hquote hspacing hbreak hescape ih =>
    rw [plainLines_cons (Bool.eq_false_iff.mpr hbreak), readDoubleFrom_of_ne hquote hescape,
      if_neg hspacing, if_neg hbreak]
    exact ih
  | case11 digits gap reversed p _ e cs l hletter _ _ _ q ih =>
    have hbreak : isBreak e = false :=
      isBreak_of_class (q := fun d => (letterEscape? d).isSome) (by decide) (by rw [hletter]; rfl)
    rw [plainLines_cons (by decide), plainLines_cons hbreak, readDoubleFrom_letter hletter]
    exact ih
  | case12 digits gap reversed p _ e cs width hwidth hletter _ _ _ q ih =>
    have hbreak : isBreak e = false :=
      isBreak_of_class (q := fun d => (escapeWidth? d).isSome) (by decide) (by rw [hwidth]; rfl)
    rw [plainLines_cons (by decide), plainLines_cons hbreak, readDoubleFrom_width hletter hwidth]
    exact ih
  | case13 digits gap reversed p cs hmarker =>
    refine (readDoubleFrom_plainHidden rfl rfl rfl).trans ?_
    exact if_pos hmarker
  | case14 digits gap reversed p _ cs hmarker _ _ _ _ _ _ q ih =>
    refine (readDoubleFrom_plainHidden rfl rfl rfl).trans ?_
    exact (if_neg hmarker).trans ih
  | case15 digits gap reversed p e hwidth hletter hbreak cs hmarker hpair =>
    rw [readDoubleFrom_plainHidden hletter hwidth hbreak, if_neg (not_isHalfBreak hpair)]
    exact if_pos hmarker
  | case16 digits gap reversed p _ e hwidth hletter hbreak cs hmarker hpair _ _ _ q ih =>
    rw [readDoubleFrom_plainHidden hletter hwidth hbreak, if_neg (not_isHalfBreak hpair)]
    exact (if_neg hmarker).trans ih
  | case17 digits gap reversed p e cs hwidth hletter hbreak =>
    rw [plainLines_cons (by decide), plainLines_cons (Bool.eq_false_iff.mpr hbreak),
      readDoubleFrom_hides hletter hwidth]
    simp only [if_neg hbreak]
    rfl

/-- A quoted scalar starts with its quote. -/
theorem readQuoted_plain (double : Bool) (h : c.Inline) :
    readQuoted double c.plain = (readQuoted double c).map behind := by
  unfold readQuoted
  rw [Cursor.drop_one_plain h]
  cases double with
  | true => exact readDoubleFrom_plainLines
  | false => exact readSingleFrom_plainLines

/-! ## 2. Block scalars -/

/-- A chomping mark or a digit ends no line. -/
theorem isBreak_of_chompingOf? {a : Char} {ch : Chomping} (h : chompingOf? a = some ch) :
    isBreak a = false :=
  isBreak_of_class (q := fun d => (chompingOf? d).isSome) (by decide) (by rw [h]; rfl)

theorem isBreak_of_plainDigit? {a : Char} {d : Nat} (h : plainDigit? a = some d) :
    isBreak a = false :=
  isBreak_of_class (q := fun d => (plainDigit? d).isSome) (by decide) (by rw [h]; rfl)

/-- A header is read off its first two characters, and returns and line feeds are the same there. -/
theorem headerOf_plainLines (cs : List Char) : headerOf (plainLines cs) = headerOf cs := by
  have hchomping : ∀ a, chompingOf? (plainEnd a) = chompingOf? a := apply_plainEnd rfl
  have hdigit : ∀ a, plainDigit? (plainEnd a) = plainDigit? a := apply_plainEnd (by decide)
  cases cs with
  | nil => rfl
  | cons a cs =>
    cases hbreak : isBreak a with
    | false =>
      rw [plainLines_cons hbreak]
      simp only [headerOf, head?_plainLines, Option.bind_map, Function.comp_def, hchomping, hdigit]
    | true =>
      have hmark : ∀ d ∈ breaks, chompingOf? d = none ∧ plainDigit? d = none := by
        simp [breaks, chompingOf?, plainDigit?]
      obtain ⟨rest, hrest⟩ := List.head?_eq_some_iff.mp (head?_plainLines (a :: cs))
      have hnone := hmark a (mem_breaks_iff.mpr hbreak)
      rw [hrest]
      simp only [headerOf, hchomping, hdigit, hnone]

/-- What a header takes ends no line. -/
theorem isBreak_of_headerOf {header : BlockHeader} {n : Nat} (h : headerOf cs = .ok (header, n)) :
    ∀ a ∈ cs.take n, isBreak a = false := by
  cases cs with
  | nil => exact fun a ha => absurd ha (by simp)
  | cons a rest =>
    have two : ∀ {b}, isBreak a = false → rest.head? = some b → isBreak b = false →
        ∀ d ∈ (a :: rest).take 2, isBreak d = false := by
      intro b ha hhead hb
      obtain ⟨more, rfl⟩ := List.head?_eq_some_iff.mp hhead
      exact List.forall_mem_cons.mpr ⟨ha, List.forall_mem_singleton.mpr hb⟩
    rw [headerOf] at h
    split at h
    · rename_i ch hch
      have ha := isBreak_of_chompingOf? hch
      split at h
      · cases h
      · rename_i d _ hdigit
        cases h
        obtain ⟨b, hhead, hb⟩ := Option.bind_eq_some_iff.mp hdigit
        exact two ha hhead (isBreak_of_plainDigit? hb)
      · cases h
        exact List.forall_mem_singleton.mpr ha
    · split at h
      · cases h
      · rename_i d _ hdigit
        have ha := isBreak_of_plainDigit? hdigit
        split at h
        · rename_i ch hch
          cases h
          obtain ⟨b, hhead, hb⟩ := Option.bind_eq_some_iff.mp hch
          exact two ha hhead (isBreak_of_chompingOf? hb)
        · cases h
          exact List.forall_mem_singleton.mpr ha
      · cases h
        exact fun d hd => absurd hd (by simp)

theorem readBlockHeader_plain (c : Cursor) :
    readBlockHeader c.plain = (readBlockHeader c).map behind := by
  have hheader : headerOf c.plain.rest = (headerOf c.rest).map id := by
    rw [show c.plain.rest = plainLines c.rest from rfl, headerOf_plainLines]
    cases headerOf c.rest <;> rfl
  refine bind_map hheader fun ⟨header, n⟩ h => ?_
  dsimp only [id]
  rw [Cursor.drop_plain (isBreak_of_headerOf h),
    show endsField (c.drop n).plain.rest = endsField (c.drop n).rest from endsField_plainLines _]
  split
  · exact bind_map (skipRestOfLine_plain (c.drop n)) fun after _ => rfl
  · rfl

/-- Empty lines that have been read, in front of a rest with plain line ends. -/
def behindEmpty (r : List Char × Nat × Cursor) : List Char × Nat × Cursor :=
  (r.1, r.2.1, r.2.2.plain)

theorem readLeadingLines_plainLines : ∀ (cs ended : List Char) (widest : Nat) (p : Place),
    readLeadingLines ended widest (plainLines cs) p =
      behindEmpty (readLeadingLines ended widest cs p)
  | [], _, _, _ => rfl
  | a :: cs, ended, widest, p => by
      rcases plainLines_cases a cs with ⟨hbreak, heq⟩ | ⟨hbreak, hhalf, heq⟩ | ⟨hbreak, hhalf, heq⟩
      · rw [heq, readLeadingLines, readLeadingLines, hbreak, if_neg Bool.false_ne_true,
          if_neg Bool.false_ne_true]
        split
        · exact readLeadingLines_plainLines cs _ _ _
        · rw [← heq]
          rfl
      · rw [heq, readLeadingLines, if_neg (ne_space hbreak), hbreak, if_pos rfl, hhalf, if_pos rfl]
        exact readLeadingLines_plainLines cs _ _ _
      · rw [heq, readLeadingLines, readLeadingLines,
          if_neg (ne_space ((isBreak_plainEnd a).trans hbreak)), if_neg (ne_space hbreak),
          isBreak_plainEnd, hbreak, if_pos rfl, if_pos rfl, isHalfBreak_plainEnd, hhalf,
          if_neg Bool.false_ne_true, if_neg Bool.false_ne_true, readBreak_plainEnd, next_plainEnd]
        exact readLeadingLines_plainLines cs _ _ _

theorem readEmptyLines_plainLines {indent : Nat} : ∀ (cs ended : List Char) (p : Place),
    readEmptyLines indent ended (plainLines cs) p = behind (readEmptyLines indent ended cs p)
  | [], _, _ => rfl
  | a :: cs, ended, p => by
      rcases plainLines_cases a cs with ⟨hbreak, heq⟩ | ⟨hbreak, hhalf, heq⟩ | ⟨hbreak, hhalf, heq⟩
      · rw [heq, readEmptyLines, readEmptyLines, hbreak, if_neg Bool.false_ne_true,
          if_neg Bool.false_ne_true]
        split
        · exact readEmptyLines_plainLines cs _ _
        · rw [← heq]
          rfl
      · rw [heq, readEmptyLines, not_margin hbreak, if_neg Bool.false_ne_true, hbreak, if_pos rfl,
          hhalf, if_pos rfl]
        exact readEmptyLines_plainLines cs _ _
      · rw [heq, readEmptyLines, readEmptyLines, not_margin ((isBreak_plainEnd a).trans hbreak),
          not_margin hbreak, if_neg Bool.false_ne_true, if_neg Bool.false_ne_true, isBreak_plainEnd,
          hbreak, if_pos rfl, if_pos rfl, isHalfBreak_plainEnd, hhalf, if_neg Bool.false_ne_true,
          if_neg Bool.false_ne_true, readBreak_plainEnd, next_plainEnd]
        exact readEmptyLines_plainLines cs _ _

theorem readIndentation_plain (least : Nat) (increment : Option Nat) (c : Cursor) :
    readIndentation least increment c.plain =
      ((readIndentation least increment c).1, behind (readIndentation least increment c).2) := by
  cases increment with
  | none =>
    show (max least (readLeadingLines [] 0 (plainLines c.rest) c.place).2.1,
      (readLeadingLines [] 0 (plainLines c.rest) c.place).1,
      (readLeadingLines [] 0 (plainLines c.rest) c.place).2.2) = _
    rw [readLeadingLines_plainLines]
    rfl
  | some n =>
    show (least + n - 1, readEmptyLines (least + n - 1) [] (plainLines c.rest) c.place) = _
    rw [readEmptyLines_plainLines]
    rfl

/-- No line ends behind the empty lines in front of a block scalar. -/
theorem readLeadingLines_inline : ∀ (cs ended : List Char) (widest : Nat) (p : Place),
    (readLeadingLines ended widest cs p).2.2.Inline
  | [], _, _, _ => by rintro _ ⟨⟩
  | a :: cs, _, _, _ => by
      rw [readLeadingLines]
      split
      · exact readLeadingLines_inline cs _ _ _
      · split
        · split
          · exact readLeadingLines_inline cs _ _ _
          · exact readLeadingLines_inline cs _ _ _
        · rename_i hbreak
          exact Cursor.inline_of_head? rfl (Bool.eq_false_iff.mpr hbreak)

theorem readEmptyLines_inline {indent : Nat} : ∀ (cs ended : List Char) (p : Place),
    (readEmptyLines indent ended cs p).2.Inline
  | [], _, _ => by rintro _ ⟨⟩
  | a :: cs, _, _ => by
      rw [readEmptyLines]
      split
      · exact readEmptyLines_inline cs _ _
      · split
        · split
          · exact readEmptyLines_inline cs _ _
          · exact readEmptyLines_inline cs _ _
        · rename_i hbreak
          exact Cursor.inline_of_head? rfl (Bool.eq_false_iff.mpr hbreak)

theorem readIndentation_inline (least : Nat) (increment : Option Nat) (c : Cursor) :
    (readIndentation least increment c).2.2.Inline := by
  cases increment with
  | none => exact readLeadingLines_inline c.rest _ _ _
  | some n => exact readEmptyLines_inline c.rest _ _

theorem readLinesFrom_plainLines {folded : Bool} {chomping : Chomping} {indent : Nat} :
    ∀ (cs : List Char) (state : BlockState) (reversed : List Char) (p : Place),
    readLinesFrom folded chomping indent state reversed (plainLines cs) p =
      behind (readLinesFrom folded chomping indent state reversed cs p)
  | [], _, _, _ => rfl
  | a :: cs, .line indented, _, _ => by
      rcases plainLines_cases a cs with ⟨hbreak, heq⟩ | ⟨hbreak, hhalf, heq⟩ | ⟨hbreak, hhalf, heq⟩
      · rw [heq, readLinesFrom, readLinesFrom, hbreak, if_neg Bool.false_ne_true,
          if_neg Bool.false_ne_true]
        exact readLinesFrom_plainLines cs _ _ _
      · rw [heq, readLinesFrom, hbreak, if_pos rfl, hhalf, if_pos rfl]
        exact readLinesFrom_plainLines cs _ _ _
      · rw [heq, readLinesFrom, readLinesFrom, isBreak_plainEnd, hbreak, if_pos rfl, if_pos rfl,
          isHalfBreak_plainEnd, hhalf, if_neg Bool.false_ne_true, if_neg Bool.false_ne_true,
          readBreak_plainEnd, next_plainEnd]
        exact readLinesFrom_plainLines cs _ _ _
  | a :: cs, .between indented ended breaks, _, _ => by
      rcases plainLines_cases a cs with ⟨hbreak, heq⟩ | ⟨hbreak, hhalf, heq⟩ | ⟨hbreak, hhalf, heq⟩
      · rw [heq, readLinesFrom, readLinesFrom, hbreak, if_neg Bool.false_ne_true,
          if_neg Bool.false_ne_true]
        split
        · exact readLinesFrom_plainLines cs _ _ _
        · split
          · exact readLinesFrom_plainLines cs _ _ _
          · rw [← heq]
            rfl
      · rw [heq, readLinesFrom, not_margin hbreak, if_neg Bool.false_ne_true, hbreak, if_pos rfl,
          hhalf, if_pos rfl]
        exact readLinesFrom_plainLines cs _ _ _
      · rw [heq, readLinesFrom, readLinesFrom, not_margin ((isBreak_plainEnd a).trans hbreak),
          not_margin hbreak, if_neg Bool.false_ne_true, if_neg Bool.false_ne_true, isBreak_plainEnd,
          hbreak, if_pos rfl, if_pos rfl, isHalfBreak_plainEnd, hhalf, if_neg Bool.false_ne_true,
          if_neg Bool.false_ne_true, readBreak_plainEnd, next_plainEnd]
        exact readLinesFrom_plainLines cs _ _ _

theorem readLines_plain (folded : Bool) (chomping : Chomping) (indent : Nat) (ended : List Char)
    (h : c.Inline) :
    readLines folded chomping indent ended c.plain =
      behind (readLines folded chomping indent ended c) := by
  obtain ⟨_ | ⟨a, cs⟩, p⟩ := c
  · rfl
  · have heq := plainLines_cons (h a rfl) cs
    simp only [readLines, Cursor.plain, heq]
    split
    · exact readLinesFrom_plainLines cs _ _ _
    · rw [← heq]
      rfl

/-- A block scalar starts with its mark. -/
theorem readBlock_plain (folded : Bool) (parent : Int) (h : c.Inline) :
    readBlock folded parent c.plain = (readBlock folded parent c).map behind := by
  unfold readBlock
  rw [Cursor.drop_one_plain h]
  refine bind_map (readBlockHeader_plain _) fun ⟨header, after⟩ _ => ?_
  dsimp only [behind]
  rw [readIndentation_plain]
  exact congrArg Except.ok (readLines_plain _ _ _ _ (readIndentation_inline _ _ after))

end Conform.Markup
