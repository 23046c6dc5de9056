import Mathlib.Logic.Basic
import Conform.Proofs.Failing
import Conform.Markup.Tokens

/-!
# Reading comes to its end

Every reader leaves an end of what it was given: it takes characters from the front and no others.
From this it follows that every step of reading takes a character, except the one that ends reading
(`length_step`), and so the number that bounds the steps of `tokensFrom` is never what stops it
(`tokensFrom_eq_of_lt`).
-/

namespace Conform.Markup

variable {c after : Cursor} {rest cs : List Char} {p : Place}

/-! ## 1. Within a line -/

/-- The characters that end lines. -/
def breaks : List Char := ['\n', '\r', '\x85', '\u2028', '\u2029']

theorem mem_breaks_iff {a : Char} : a ∈ breaks ↔ isBreak a = true := by
  simp [breaks, isBreak, or_assoc]

/-- The characters of a class that holds no breaks. -/
theorem isBreak_of_class {q : Char → Bool} (h : breaks.any q = false) {a : Char}
    (ha : q a = true) : isBreak a = false :=
  Bool.eq_false_iff.mpr fun hbreak => List.any_eq_false.mp h a (mem_breaks_iff.mpr hbreak) ha

theorem Cursor.rest_drop_suffix (c : Cursor) (n : Nat) : (c.drop n).rest <:+ c.rest :=
  List.drop_suffix n c.rest

theorem Cursor.rest_drop_succ_suffix (c : Cursor) (n : Nat) : (c.drop (n + 1)).rest <:+ c.rest.tail := by
  show c.rest.drop (n + 1) <:+ c.rest.tail
  rw [← List.drop_one, Nat.add_comm, ← List.drop_drop]
  exact List.drop_suffix n _

theorem Cursor.rest_takeWhile_suffix (c : Cursor) (q : Char → Bool) :
    (c.takeWhile q).2.rest <:+ c.rest :=
  List.dropWhile_suffix q

theorem Cursor.rest_skipBreak_suffix (c : Cursor) : c.skipBreak.rest <:+ c.rest := by
  obtain ⟨rest, p⟩ := c
  cases rest with
  | nil => exact List.suffix_refl _
  | cons b rest =>
    show (if isHalfBreak b rest then rest.drop 1 else rest) <:+ b :: rest
    split
    · exact (List.drop_suffix 1 rest).trans (List.suffix_cons b rest)
    · exact List.suffix_cons b rest

theorem readName_suffix {name : List Char} (h : readName c = .ok (name, after)) :
    after.rest <:+ c.rest := by
  unfold readName at h
  dsimp only at h
  split at h
  · cases h
    exact c.rest_takeWhile_suffix isNameChar
  · cases h

/-- A digit ends no line. -/
theorem isBreak_of_baseDigit? {base d : Nat} {a : Char} (h : baseDigit? base a = some d) :
    isBreak a = false := by
  refine isBreak_of_class (q := fun a => (baseDigit? base a).isSome) ?_ (by rw [h]; rfl)
  simp [breaks, baseDigit?]

/-- Characters of tags end no line. -/
theorem isBreak_of_isTagChar {a : Char} (h : isTagChar a = true) : isBreak a = false :=
  isBreak_of_class (by decide) h

/-- Reading on in a tag in front of a character that starts no escape. -/
theorem readTagText_cons {a : Char} (ha : a ≠ '%') (bytes : List UInt8) (cs : List Char) :
    readTagText bytes (a :: cs) =
      (String.fromUTF8? ⟨bytes.reverse.toArray⟩).elim (.error .malformed) fun s =>
        if isTagChar a then (readTagText [] cs).map fun r => (s.toList ++ a :: r.1, r.2)
        else .ok (s.toList, a :: cs) := by
  rw [readTagText]
  · cases String.fromUTF8? ⟨bytes.reverse.toArray⟩ with
    | none => rfl
    | some s =>
      simp only [Option.elim_some]
      split
      · cases readTagText [] cs <;> rfl
      · rfl
  · exact fun _ _ _ h => ha (List.cons.inj h).1
  · exact fun _ h => ha (List.cons.inj h).1

/-- The byte of an escape behind its percent sign, and what follows. -/
def escapedByte? : List Char → Option (UInt8 × List Char)
  | a :: b :: rest =>
    (baseDigit? 16 a).bind fun x => (baseDigit? 16 b).map fun y => (UInt8.ofNat (x * 16 + y), rest)
  | _ => none

theorem escapedByte?_eq_some_iff {e : UInt8} :
    escapedByte? cs = some (e, rest) ↔ ∃ a b x y, cs = a :: b :: rest ∧
      baseDigit? 16 a = some x ∧ baseDigit? 16 b = some y ∧ e = UInt8.ofNat (x * 16 + y) := by
  constructor
  · intro h
    match cs, h with
    | a :: b :: more, h =>
      obtain ⟨x, hx, h⟩ := Option.bind_eq_some_iff.mp h
      obtain ⟨y, hy, h⟩ := Option.map_eq_some_iff.mp h
      cases h
      exact ⟨a, b, x, y, rfl, hx, hy, rfl⟩
  · rintro ⟨a, b, x, y, rfl, hx, hy, rfl⟩
    rw [escapedByte?, hx, Option.bind_some, hy]
    rfl

/-- Reading on in a tag in front of an escape. -/
theorem readTagText_percent (bytes : List UInt8) (cs : List Char) :
    readTagText bytes ('%' :: cs) =
      (escapedByte? cs).elim (.error .malformed) fun e => readTagText (e.1 :: bytes) e.2 := by
  match cs with
  | a :: b :: more =>
    rw [readTagText, escapedByte?]
    cases baseDigit? 16 a <;> cases baseDigit? 16 b <;> rfl
  | [_] => rfl
  | [] => rfl

theorem readTagText_nil (bytes : List UInt8) :
    readTagText bytes [] = (String.fromUTF8? ⟨bytes.reverse.toArray⟩).elim (.error .malformed)
      fun s => .ok (s.toList, []) := by
  rw [readTagText]
  · cases String.fromUTF8? ⟨bytes.reverse.toArray⟩ <;> rfl
  · exact nofun
  · exact nofun

/-- The text of a tag is taken from the front, and ends no line. -/
theorem readTagText_taken {bytes : List UInt8} {text : List Char}
    (h : readTagText bytes cs = .ok (text, rest)) :
    ∃ taken, cs = taken ++ rest ∧ ∀ c ∈ taken, isBreak c = false := by
  induction hn : cs.length using Nat.strongRecOn generalizing cs bytes text with
  | ind n ih =>
    cases cs with
    | nil =>
      rw [readTagText_nil] at h
      cases hfront : String.fromUTF8? ⟨bytes.reverse.toArray⟩ with
      | none =>
        rw [hfront] at h
        cases h
      | some s =>
        rw [hfront] at h
        cases h
        exact ⟨[], rfl, List.forall_mem_nil _⟩
    | cons a cs =>
      by_cases ha : a = '%'
      · subst ha
        rw [readTagText_percent] at h
        cases hescape : escapedByte? cs with
        | none =>
          rw [hescape] at h
          cases h
        | some e =>
          obtain ⟨a, b, x, y, rfl, hx, hy, -⟩ := escapedByte?_eq_some_iff.mp hescape
          rw [hescape] at h
          obtain ⟨taken, heq, htaken⟩ := ih e.2.length (by simp at hn; omega) h rfl
          refine ⟨'%' :: a :: b :: taken, by rw [heq]; rfl, ?_⟩
          exact List.forall_mem_cons.mpr ⟨by decide, List.forall_mem_cons.mpr
            ⟨isBreak_of_baseDigit? hx, List.forall_mem_cons.mpr
              ⟨isBreak_of_baseDigit? hy, htaken⟩⟩⟩
      · rw [readTagText_cons ha] at h
        cases hfront : String.fromUTF8? ⟨bytes.reverse.toArray⟩ with
        | none =>
          rw [hfront] at h
          cases h
        | some s =>
          rw [hfront, Option.elim_some] at h
          split at h
          · rename_i hchar
            obtain ⟨⟨more, rest⟩, hmore, h⟩ := map_eq_ok.mp h
            cases h
            obtain ⟨taken, rfl, htaken⟩ := ih cs.length (by simp at hn; omega) hmore rfl
            exact ⟨a :: taken, rfl,
              List.forall_mem_cons.mpr ⟨isBreak_of_isTagChar hchar, htaken⟩⟩
          · cases h
            exact ⟨[], rfl, List.forall_mem_nil _⟩

theorem readTagRest_suffix {text : List Char} (h : readTagRest c = .ok (text, after)) :
    after.rest <:+ c.rest := by
  obtain ⟨⟨own, rest⟩, hown, h⟩ := bind_eq_ok.mp h
  obtain ⟨taken, htaken, -⟩ := readTagText_taken hown
  dsimp only at h
  split at h
  · cases h
  · cases h
    exact ⟨taken, htaken.symm⟩

/-- A handle starts with its mark. -/
theorem readHandle_suffix {handle : List Char} (h : readHandle c = .ok (handle, after)) :
    after.rest <:+ c.rest.tail := by
  unfold readHandle at h
  dsimp only at h
  split at h
  · split at h
    · cases h
      exact c.rest_drop_succ_suffix 0
    · split at h
      · cases h
        exact c.rest_drop_succ_suffix _
      · cases h
  · cases h

theorem readTagHandle_suffix {handle : List Char} (h : readTagHandle c = .ok (handle, after)) :
    after.rest <:+ c.rest.tail := by
  unfold readTagHandle at h
  split at h
  · exact readHandle_suffix h
  · cases h
    exact c.rest_drop_succ_suffix 0

/-- A tag starts with its mark. -/
theorem readTagForm_suffix {t : WrittenTag} (h : readTagForm c = .ok (t, after)) :
    after.rest <:+ c.rest.tail := by
  unfold readTagForm at h
  dsimp only at h
  split at h
  · obtain ⟨⟨suffix, behind⟩, hrest, h⟩ := bind_eq_ok.mp h
    dsimp only at h
    split at h <;> cases h
    exact ((behind.rest_drop_suffix 1).trans (readTagRest_suffix hrest)).trans
      (c.rest_drop_succ_suffix 1)
  · split at h
    · cases h
      exact c.rest_drop_succ_suffix 0
    · obtain ⟨⟨handle, front⟩, hfront, h⟩ := bind_eq_ok.mp h
      obtain ⟨⟨suffix, behind⟩, hrest, h⟩ := bind_eq_ok.mp h
      cases h
      exact (readTagRest_suffix hrest).trans (readTagHandle_suffix hfront)

theorem readTag_suffix {t : WrittenTag} (h : readTag c = .ok (t, after)) :
    after.rest <:+ c.rest.tail := by
  obtain ⟨⟨t', behind⟩, htag, h⟩ := bind_eq_ok.mp h
  dsimp only at h
  split at h <;> cases h
  exact readTagForm_suffix htag

theorem Cursor.rest_skipSpaces_suffix (c : Cursor) : c.skipSpaces.rest <:+ c.rest :=
  c.rest_takeWhile_suffix _

theorem readVersionNumber_suffix {n : Nat} (h : readVersionNumber c = .ok (n, after)) :
    after.rest <:+ c.rest := by
  unfold readVersionNumber at h
  dsimp only at h
  split at h
  · cases h
  · split at h
    · cases h
      exact c.rest_takeWhile_suffix _
    · cases h

theorem readVersion_suffix {d : Directive} (h : readVersion c = .ok (d, after)) :
    after.rest <:+ c.rest := by
  obtain ⟨⟨major, behind⟩, hmajor, h⟩ := bind_eq_ok.mp h
  dsimp only at h
  split at h
  · obtain ⟨⟨minor, behind'⟩, hminor, h⟩ := bind_eq_ok.mp h
    dsimp only at h
    split at h <;> cases h
    exact (((readVersionNumber_suffix hminor).trans (behind.rest_drop_suffix 1)).trans
      (readVersionNumber_suffix hmajor)).trans c.rest_skipSpaces_suffix
  · cases h

theorem readHandleDirective_suffix {d : Directive} (h : readHandleDirective c = .ok (d, after)) :
    after.rest <:+ c.rest := by
  obtain ⟨⟨handle, behind⟩, hhandle, h⟩ := bind_eq_ok.mp h
  dsimp only at h
  split at h
  · obtain ⟨⟨full, behind'⟩, hfull, h⟩ := bind_eq_ok.mp h
    dsimp only at h
    split at h <;> cases h
    exact (((readTagRest_suffix hfull).trans behind.rest_skipSpaces_suffix).trans
      ((readHandle_suffix hhandle).trans (List.tail_suffix _))).trans c.rest_skipSpaces_suffix
  · cases h

theorem skipComment_suffix (c : Cursor) : (skipComment c).rest <:+ c.rest := by
  unfold skipComment
  split
  · exact c.rest_takeWhile_suffix _
  · exact List.suffix_refl _

theorem skipRestOfLine_suffix (h : skipRestOfLine c = .ok after) : after.rest <:+ c.rest := by
  unfold skipRestOfLine at h
  dsimp only at h
  split at h <;> cases h
  exact ((Cursor.rest_skipBreak_suffix _).trans (skipComment_suffix _)).trans
    c.rest_skipSpaces_suffix

theorem readDirectiveNamed_suffix {name : List Char} {d : Directive}
    (h : readDirectiveNamed name c = .ok (d, after)) : after.rest <:+ c.rest := by
  unfold readDirectiveNamed at h
  split at h
  · exact readVersion_suffix h
  · split at h
    · exact readHandleDirective_suffix h
    · cases h
      exact c.rest_takeWhile_suffix _

theorem readDirective_suffix {d : Directive} (h : readDirective c = .ok (d, after)) :
    after.rest <:+ c.rest := by
  unfold readDirective at h
  dsimp only at h
  split at h
  · cases h
  · obtain ⟨⟨d', behind⟩, hd, h⟩ := bind_eq_ok.mp h
    obtain ⟨behind', hline, h⟩ := bind_eq_ok.mp h
    cases h
    exact ((skipRestOfLine_suffix hline).trans (readDirectiveNamed_suffix hd)).trans
      (c.rest_takeWhile_suffix isNameChar)

/-! ## 2. Over several lines -/

theorem skipTrivia_suffix : ∀ (cs : List Char) (inComment broken : Bool) (p : Place),
    (skipTrivia inComment broken cs p).2.rest <:+ cs
  | [], _, _, _ => List.suffix_refl _
  | c :: cs, inComment, broken, p => by
      rw [skipTrivia]
      split
      · split
        · exact (skipTrivia_suffix cs _ _ _).trans (List.suffix_cons c cs)
        · exact (skipTrivia_suffix cs _ _ _).trans (List.suffix_cons c cs)
      · split
        · exact (skipTrivia_suffix cs _ _ _).trans (List.suffix_cons c cs)
        · split
          · exact (skipTrivia_suffix cs _ _ _).trans (List.suffix_cons c cs)
          · exact List.suffix_refl _

theorem readPlainFrom_suffix {inFlow : Bool} {indent : Int} : ∀ (cs : List Char) (gap : Gap)
    (reversed : List Char) (p : Place),
    (readPlainFrom inFlow indent gap reversed cs p).after.rest <:+ cs
  | [], _, _, _ => List.suffix_refl _
  | c :: cs, gap, reversed, p => by
      rw [readPlainFrom]
      split
      · exact (readPlainFrom_suffix cs _ _ _).trans (List.suffix_cons c cs)
      · split
        · split
          · exact (readPlainFrom_suffix cs _ _ _).trans (List.suffix_cons c cs)
          · split
            · exact List.suffix_cons c cs
            · exact (readPlainFrom_suffix cs _ _ _).trans (List.suffix_cons c cs)
        · dsimp only
          split
          · exact List.suffix_refl _
          · exact (readPlainFrom_suffix cs _ _ _).trans (List.suffix_cons c cs)

/-- A reader that goes on behind several characters. -/
theorem suffix_of_behind (taken : List Char) {after cs : List Char} (h : after <:+ cs) :
    after <:+ taken ++ cs :=
  h.trans (List.suffix_append taken cs)

theorem readSingleFrom_suffix {text : Text} {gap : Gap} {reversed : Text}
    (h : readSingleFrom gap reversed cs p = .ok (text, after)) : after.rest <:+ cs := by
  fun_induction readSingleFrom gap reversed cs p with
  | case1 | case6 => cases h
  | case2 _ _ _ _ ih => exact suffix_of_behind ['\'', '\''] (ih h)
  | case3 =>
    cases h
    exact List.suffix_cons _ _
  | case4 | case5 | case7 | case8 =>
    rename_i ih
    exact (ih h).trans (List.suffix_cons _ _)

theorem readDoubleFrom_suffix {text : Text} {missing : Nat} {digits : List Char} {gap : Gap}
    {reversed : Text} (h : readDoubleFrom missing digits gap reversed cs p = .ok (text, after)) :
    after.rest <:+ cs := by
  fun_induction readDoubleFrom missing digits gap reversed cs p with
  | case1 | case2 | case8 | case10 | case13 | case15 | case17 => cases h
  | case3 =>
    -- the last digit of an escape
    rename_i ih
    obtain ⟨q, -, h⟩ := bind_eq_ok.mp h
    exact (ih q h).trans (List.suffix_cons _ _)
  | case5 =>
    cases h
    exact List.suffix_cons _ _
  | case4 | case6 | case7 | case9 | case18 =>
    rename_i ih
    exact (ih h).trans (List.suffix_cons _ _)
  | case11 | case12 | case16 =>
    rename_i ih
    exact suffix_of_behind [_, _] (ih h)
  | case14 =>
    rename_i ih
    exact suffix_of_behind [_, _, _] (ih h)

/-- A quoted scalar starts with its quote. -/
theorem readQuoted_suffix {double : Bool} {text : Text}
    (h : readQuoted double c = .ok (text, after)) : after.rest <:+ c.rest.tail := by
  unfold readQuoted at h
  dsimp only at h
  refine .trans ?_ (c.rest_drop_succ_suffix 0)
  split at h
  · exact readDoubleFrom_suffix h
  · exact readSingleFrom_suffix h

/-! ## 3. Block scalars -/

theorem readBlockHeader_suffix {header : BlockHeader} (h : readBlockHeader c = .ok (header, after)) :
    after.rest <:+ c.rest := by
  obtain ⟨⟨header', n⟩, -, h⟩ := bind_eq_ok.mp h
  dsimp only at h
  split at h
  · obtain ⟨behind, hline, h⟩ := bind_eq_ok.mp h
    cases h
    exact (skipRestOfLine_suffix hline).trans (c.rest_drop_suffix n)
  · cases h

theorem readLeadingLines_suffix : ∀ (cs breaks : List Char) (widest : Nat) (p : Place),
    (readLeadingLines breaks widest cs p).2.2.rest <:+ cs
  | [], _, _, _ => List.suffix_refl _
  | c :: cs, _, _, _ => by
      rw [readLeadingLines]
      split
      · exact (readLeadingLines_suffix cs _ _ _).trans (List.suffix_cons c cs)
      · split
        · split
          · exact (readLeadingLines_suffix cs _ _ _).trans (List.suffix_cons c cs)
          · exact (readLeadingLines_suffix cs _ _ _).trans (List.suffix_cons c cs)
        · exact List.suffix_refl _

theorem readEmptyLines_suffix {indent : Nat} : ∀ (cs breaks : List Char) (p : Place),
    (readEmptyLines indent breaks cs p).2.rest <:+ cs
  | [], _, _ => List.suffix_refl _
  | c :: cs, _, _ => by
      rw [readEmptyLines]
      split
      · exact (readEmptyLines_suffix cs _ _).trans (List.suffix_cons c cs)
      · split
        · split
          · exact (readEmptyLines_suffix cs _ _).trans (List.suffix_cons c cs)
          · exact (readEmptyLines_suffix cs _ _).trans (List.suffix_cons c cs)
        · exact List.suffix_refl _

theorem readIndentation_suffix (least : Nat) (increment : Option Nat) (c : Cursor) :
    (readIndentation least increment c).2.2.rest <:+ c.rest := by
  cases increment with
  | none => exact readLeadingLines_suffix c.rest _ _ _
  | some n => exact readEmptyLines_suffix c.rest _ _

theorem readLinesFrom_suffix {folded : Bool} {chomping : Chomping} {indent : Nat} :
    ∀ (cs : List Char) (state : BlockState) (reversed : List Char) (p : Place),
    (readLinesFrom folded chomping indent state reversed cs p).2.rest <:+ cs
  | [], _, _, _ => List.suffix_refl _
  | c :: cs, .line indented, _, _ => by
      rw [readLinesFrom]
      split
      · split
        · exact (readLinesFrom_suffix cs _ _ _).trans (List.suffix_cons c cs)
        · exact (readLinesFrom_suffix cs _ _ _).trans (List.suffix_cons c cs)
      · exact (readLinesFrom_suffix cs _ _ _).trans (List.suffix_cons c cs)
  | c :: cs, .between indented ended breaks, _, _ => by
      rw [readLinesFrom]
      split
      · exact (readLinesFrom_suffix cs _ _ _).trans (List.suffix_cons c cs)
      · split
        · split
          · exact (readLinesFrom_suffix cs _ _ _).trans (List.suffix_cons c cs)
          · exact (readLinesFrom_suffix cs _ _ _).trans (List.suffix_cons c cs)
        · split
          · exact (readLinesFrom_suffix cs _ _ _).trans (List.suffix_cons c cs)
          · exact List.suffix_refl _

theorem readLines_suffix (folded : Bool) (chomping : Chomping) (indent : Nat) (breaks : List Char)
    (c : Cursor) : (readLines folded chomping indent breaks c).2.rest <:+ c.rest := by
  unfold readLines
  split
  · exact List.suffix_refl _
  · rename_i first rest hrest
    split
    · rw [hrest]
      exact (readLinesFrom_suffix rest _ _ _).trans (List.suffix_cons first rest)
    · exact List.suffix_refl _

/-- A block scalar starts with its mark. -/
theorem readBlock_suffix {folded : Bool} {parent : Int} {text : List Char}
    (h : readBlock folded parent c = .ok (text, after)) : after.rest <:+ c.rest.tail := by
  obtain ⟨⟨header, behind⟩, hheader, h⟩ := bind_eq_ok.mp h
  have hfront := readIndentation_suffix (max (parent + 1) 1).toNat header.increment behind
  dsimp only at h
  generalize readIndentation (max (parent + 1) 1).toNat header.increment behind = front at h hfront
  have hlines := readLines_suffix folded header.chomping front.1 front.2.1 front.2.2
  rw [pure_eq_ok.mp h] at hlines
  exact (hlines.trans hfront).trans
    ((readBlockHeader_suffix hheader).trans (c.rest_drop_succ_suffix 0))

/-! ## 4. Plain scalars -/

/-- A plain scalar does not end in front of a character with which it may start. -/
theorem endsPlain_of_startsPlain {inFlow : Bool} {a : Char}
    (h : startsPlain inFlow (a :: cs) = true) :
    a ≠ ' ' ∧ isBreak a = false ∧ endsPlain inFlow a cs = false := by
  simp only [startsPlain, Bool.or_eq_true, Bool.and_eq_true, Bool.not_eq_true', decide_eq_true_eq]
    at h
  rcases h with ⟨⟨hspacing, hbreak⟩, hindicator⟩ | ⟨hends, rfl | ⟨rfl, rfl | rfl⟩⟩
  · have hne : ∀ d ∈ indicators, a ≠ d := fun d hd e => by
      rw [e, List.contains_iff_mem.mpr hd] at hindicator
      cases hindicator
    simp only [isSpacing, Bool.or_eq_false_iff, decide_eq_false_iff_not] at hspacing
    refine ⟨hspacing.1, hbreak, ?_⟩
    simp [endsPlain, hspacing.2, hne ':' (by decide), hne ',' (by decide), hne '?' (by decide),
      hne '[' (by decide), hne ']' (by decide), hne '\x7b' (by decide), hne '\x7d' (by decide)]
  · exact ⟨by decide, by decide, by simp [endsPlain]⟩
  · exact ⟨by decide, by decide, by simp [endsPlain]⟩
  · exact ⟨by decide, by decide, by simp [endsPlain, hends]⟩

/-- A plain scalar takes its first character. -/
theorem readPlain_suffix {inFlow : Bool} {indent : Int}
    (h : startsPlain inFlow c.rest = true) :
    (readPlain inFlow indent c).after.rest <:+ c.rest.tail := by
  obtain ⟨_ | ⟨a, cs⟩, p⟩ := c
  · cases h
  · obtain ⟨hspace, hbreak, hends⟩ := endsPlain_of_startsPlain h
    show (readPlainFrom inFlow indent .none [] (a :: cs) p).after.rest <:+ cs
    rw [readPlainFrom, if_neg hspace, hbreak, if_neg Bool.false_ne_true]
    simp only [hends, bne_self_eq_false, Bool.false_and, Bool.or_false, Bool.false_eq_true, if_false]
    exact readPlainFrom_suffix cs _ _ _

/-! ## 5. Steps -/

namespace Layout

variable {s s' : Layout}

theorem cursor_dropCandidate (h : s.dropCandidate = .ok s') : s'.cursor = s.cursor := by
  unfold dropCandidate at h
  split at h
  · split at h <;> cases h
    rfl
  · cases h
    rfl

theorem cursor_noteCandidate (h : s.noteCandidate = .ok s') : s'.cursor = s.cursor := by
  unfold noteCandidate at h
  split at h
  · obtain ⟨s₁, h₁, h⟩ := bind_eq_ok.mp h
    cases h
    exact (cursor_dropCandidate h₁ : s₁.cursor = s.cursor)
  · cases h
    rfl

theorem cursor_openBlock {t : Token} (h : s.openBlock t = .ok s') : s'.cursor = s.cursor := by
  unfold openBlock at h
  split at h
  · cases h
    rfl
  · split at h
    · cases h
    · dsimp only at h
      split at h <;> cases h <;> rfl

@[simp] theorem inFlow_setCandidate (s : Layout) (k : Option Candidate) :
    (s.setCandidate k).inFlow = s.inFlow := by
  simp only [inFlow, setCandidate, List.length_cons, List.length_drop, decide_eq_decide]
  omega

theorem inFlow_dropCandidate (h : s.dropCandidate = .ok s') : s'.inFlow = s.inFlow := by
  unfold dropCandidate at h
  split at h
  · split at h <;> cases h
    exact inFlow_setCandidate s none
  · cases h
    rfl

theorem inFlow_noteCandidate (h : s.noteCandidate = .ok s') : s'.inFlow = s.inFlow := by
  unfold noteCandidate at h
  split at h
  · obtain ⟨s₁, h₁, h⟩ := bind_eq_ok.mp h
    cases h
    exact (inFlow_setCandidate s₁ _).trans (inFlow_dropCandidate h₁)
  · cases h
    rfl

theorem cursor_toValue (h : s.toValue = .ok s') : s'.cursor = s.cursor := by
  unfold toValue at h
  split at h
  · cases h
    unfold makeKey
    dsimp only
    split <;> rfl
  · obtain ⟨s₁, h₁, h⟩ := bind_eq_ok.mp h
    cases h
    exact (cursor_openBlock h₁ : s₁.cursor = s.cursor)

theorem cursor_dropStale (h : s.dropStale = .ok s') : s'.cursor = s.cursor := by
  rw [dropStale] at h
  split at h
  · cases h
  · cases h
    rfl

@[simp] theorem cursor_unwind (s : Layout) (column : Int) : (s.unwind column).cursor = s.cursor := by
  rw [unwind]
  split <;> rfl

/-- What a step leaves: it has read the end of the source, or less of the characters are left. -/
def Advances (s s' : Layout) : Prop :=
  s'.reversed.head? = some .streamEnd ∨
    s'.cursor.rest <:+ s.cursor.rest ∧ s'.cursor.rest.length < s.cursor.rest.length

/-- Characters are left behind one that was in front. -/
theorem advances_of_suffix (hne : s.cursor.rest ≠ []) (h : s'.cursor.rest <:+ s.cursor.rest.tail) :
    Advances s s' := by
  refine .inr ⟨h.trans (List.tail_suffix _), Nat.lt_of_le_of_lt h.length_le ?_⟩
  rw [List.length_tail]
  exact Nat.sub_lt (List.length_pos_iff.mpr hne) Nat.one_pos

theorem takeEnd_advances (h : s.takeEnd = .ok s') : Advances s s' := by
  obtain ⟨s₁, -, h⟩ := bind_eq_ok.mp h
  cases h
  exact .inl rfl

/-- The cursors of the layouts that a token leaves, unless it is the last one. -/
theorem takeDirective_suffix (h : s.takeDirective = .ok s') :
    s'.cursor.rest <:+ s.cursor.rest.tail := by
  obtain ⟨s₁, h₁, h⟩ := bind_eq_ok.mp h
  obtain ⟨⟨d, c⟩, hd, h⟩ := bind_eq_ok.mp h
  cases h
  rw [← cursor_unwind s (-1), ← cursor_dropCandidate h₁]
  exact (readDirective_suffix hd).trans (Cursor.rest_drop_succ_suffix _ 0)

theorem takeMarker_suffix {t : Token} (h : s.takeMarker t = .ok s') :
    s'.cursor.rest <:+ s.cursor.rest.tail := by
  obtain ⟨s₁, h₁, h⟩ := bind_eq_ok.mp h
  cases h
  rw [← cursor_unwind s (-1), ← cursor_dropCandidate h₁]
  exact Cursor.rest_drop_succ_suffix _ 2

theorem takeFlowStart_suffix {t : Token} (h : s.takeFlowStart t = .ok s') :
    s'.cursor.rest <:+ s.cursor.rest.tail := by
  obtain ⟨s₁, h₁, h⟩ := bind_eq_ok.mp h
  cases h
  rw [← cursor_noteCandidate h₁]
  exact Cursor.rest_drop_succ_suffix _ 0

theorem takeFlowEnd_suffix {t : Token} (h : s.takeFlowEnd t = .ok s') :
    s'.cursor.rest <:+ s.cursor.rest.tail := by
  obtain ⟨s₁, h₁, h⟩ := bind_eq_ok.mp h
  rw [← cursor_dropCandidate h₁]
  split at h <;> cases h
  exact Cursor.rest_drop_succ_suffix _ 0

theorem takeFlowEntry_suffix (h : s.takeFlowEntry = .ok s') :
    s'.cursor.rest <:+ s.cursor.rest.tail := by
  obtain ⟨s₁, h₁, h⟩ := bind_eq_ok.mp h
  cases h
  rw [← cursor_dropCandidate h₁]
  exact Cursor.rest_drop_succ_suffix _ 0

theorem takeBlockEntry_suffix (h : s.takeBlockEntry = .ok s') :
    s'.cursor.rest <:+ s.cursor.rest.tail := by
  obtain ⟨s₁, h₁, h⟩ := bind_eq_ok.mp h
  obtain ⟨s₂, h₂, h⟩ := bind_eq_ok.mp h
  cases h
  rw [← cursor_openBlock h₁, ← cursor_dropCandidate h₂]
  exact Cursor.rest_drop_succ_suffix _ 0

theorem takeKey_suffix (h : s.takeKey = .ok s') : s'.cursor.rest <:+ s.cursor.rest.tail := by
  obtain ⟨s₁, h₁, h⟩ := bind_eq_ok.mp h
  obtain ⟨s₂, h₂, h⟩ := bind_eq_ok.mp h
  cases h
  rw [← cursor_openBlock h₁, ← cursor_dropCandidate h₂]
  exact Cursor.rest_drop_succ_suffix _ 0

theorem takeValue_suffix (h : s.takeValue = .ok s') : s'.cursor.rest <:+ s.cursor.rest.tail := by
  obtain ⟨s₁, h₁, h⟩ := bind_eq_ok.mp h
  cases h
  rw [← cursor_toValue h₁]
  exact Cursor.rest_drop_succ_suffix _ 0

theorem takeName_suffix {t : List Char → Token} (h : s.takeName t = .ok s') :
    s'.cursor.rest <:+ s.cursor.rest.tail := by
  obtain ⟨s₁, h₁, h⟩ := bind_eq_ok.mp h
  obtain ⟨⟨name, c⟩, hname, h⟩ := bind_eq_ok.mp h
  cases h
  rw [← cursor_noteCandidate h₁]
  exact (readName_suffix hname).trans (Cursor.rest_drop_succ_suffix _ 0)

theorem takeTag_suffix (h : s.takeTag = .ok s') : s'.cursor.rest <:+ s.cursor.rest.tail := by
  obtain ⟨s₁, h₁, h⟩ := bind_eq_ok.mp h
  obtain ⟨⟨t, c⟩, htag, h⟩ := bind_eq_ok.mp h
  cases h
  rw [← cursor_noteCandidate h₁]
  exact readTag_suffix htag

theorem takeBlock_suffix {folded : Bool} (h : s.takeBlock folded = .ok s') :
    s'.cursor.rest <:+ s.cursor.rest.tail := by
  obtain ⟨s₁, h₁, h⟩ := bind_eq_ok.mp h
  obtain ⟨⟨text, c⟩, htext, h⟩ := bind_eq_ok.mp h
  cases h
  rw [← cursor_dropCandidate h₁]
  exact readBlock_suffix htext

theorem takeQuoted_suffix {double : Bool} (h : s.takeQuoted double = .ok s') :
    s'.cursor.rest <:+ s.cursor.rest.tail := by
  obtain ⟨s₁, h₁, h⟩ := bind_eq_ok.mp h
  obtain ⟨⟨text, c⟩, htext, h⟩ := bind_eq_ok.mp h
  cases h
  rw [← cursor_noteCandidate h₁]
  exact readQuoted_suffix htext

theorem takePlain_suffix (hstart : startsPlain s.inFlow s.cursor.rest = true)
    (h : s.takePlain = .ok s') : s'.cursor.rest <:+ s.cursor.rest.tail := by
  obtain ⟨s₁, h₁, h⟩ := bind_eq_ok.mp h
  cases h
  rw [← cursor_noteCandidate h₁, ← inFlow_noteCandidate h₁] at *
  exact readPlain_suffix hstart

/-- **Every token but the last takes a character.** -/
theorem takeToken_advances (h : s.takeToken = .ok s') : Advances s s' := by
  unfold takeToken at h
  split at h
  · exact takeEnd_advances h
  · rename_i a rest hrest
    refine advances_of_suffix (by simp [hrest]) ?_
    dsimp only at h
    rcases ite_eq_iff.mp h with ⟨-, h⟩ | ⟨-, h⟩
    · exact takeDirective_suffix h
    rcases ite_eq_iff.mp h with ⟨-, h⟩ | ⟨-, h⟩
    · exact takeMarker_suffix h
    rcases ite_eq_iff.mp h with ⟨-, h⟩ | ⟨-, h⟩
    · exact takeFlowStart_suffix h
    rcases ite_eq_iff.mp h with ⟨-, h⟩ | ⟨-, h⟩
    · exact takeFlowStart_suffix h
    rcases ite_eq_iff.mp h with ⟨-, h⟩ | ⟨-, h⟩
    · exact takeFlowEnd_suffix h
    rcases ite_eq_iff.mp h with ⟨-, h⟩ | ⟨-, h⟩
    · exact takeFlowEnd_suffix h
    rcases ite_eq_iff.mp h with ⟨-, h⟩ | ⟨-, h⟩
    · exact takeFlowEntry_suffix h
    rcases ite_eq_iff.mp h with ⟨-, h⟩ | ⟨-, h⟩
    · exact takeBlockEntry_suffix h
    rcases ite_eq_iff.mp h with ⟨-, h⟩ | ⟨-, h⟩
    · exact takeKey_suffix h
    rcases ite_eq_iff.mp h with ⟨-, h⟩ | ⟨-, h⟩
    · exact takeValue_suffix h
    rcases ite_eq_iff.mp h with ⟨-, h⟩ | ⟨-, h⟩
    · exact takeName_suffix h
    rcases ite_eq_iff.mp h with ⟨-, h⟩ | ⟨-, h⟩
    · exact takeName_suffix h
    rcases ite_eq_iff.mp h with ⟨-, h⟩ | ⟨-, h⟩
    · exact takeTag_suffix h
    rcases ite_eq_iff.mp h with ⟨-, h⟩ | ⟨-, h⟩
    · exact takeBlock_suffix h
    rcases ite_eq_iff.mp h with ⟨-, h⟩ | ⟨-, h⟩
    · exact takeBlock_suffix h
    rcases ite_eq_iff.mp h with ⟨-, h⟩ | ⟨-, h⟩
    · exact takeQuoted_suffix h
    rcases ite_eq_iff.mp h with ⟨-, h⟩ | ⟨-, h⟩
    · exact takeQuoted_suffix h
    rcases ite_eq_iff.mp h with ⟨hplain, h⟩ | ⟨-, h⟩
    · exact takePlain_suffix (hrest ▸ hplain) h
    · cases h

theorem rest_toNextToken_suffix (s : Layout) : s.toNextToken.cursor.rest <:+ s.cursor.rest :=
  skipTrivia_suffix _ _ _ _

theorem step_advances (h : s.step = .ok s') : Advances s s' := by
  obtain ⟨s₁, h₁, h⟩ := bind_eq_ok.mp h
  have hrest : s₁.cursor.rest <:+ s.cursor.rest := by
    rw [cursor_dropStale h₁]
    exact rest_toNextToken_suffix s
  refine (takeToken_advances h).imp_right fun ⟨hsuffix, hlt⟩ => ?_
  rw [cursor_unwind] at hsuffix hlt
  exact ⟨hsuffix.trans hrest, Nat.lt_of_lt_of_le hlt hrest.length_le⟩

end Layout

/-! ## 6. The whole source -/

/-- **The number of steps never stops reading**: whatever it is, if it is above that of the
    characters left, the tokens are the same. -/
theorem tokensFrom_eq_of_lt : ∀ {n m : Nat} {s : Layout}, s.cursor.rest.length < n →
    s.cursor.rest.length < m → tokensFrom n s = tokensFrom m s
  | n + 1, m + 1, s, hn, hm => by
      simp only [tokensFrom]
      cases h₁ : s.dropStale with
      | error f => rfl
      | ok s₁ =>
        dsimp only
        cases h₂ : s₁.step with
        | error f => rfl
        | ok s₂ =>
          dsimp only
          rcases Layout.step_advances h₂ with hend | ⟨-, hlt⟩
          · obtain ⟨tokens, htokens⟩ := List.head?_eq_some_iff.mp hend
            rw [htokens]
          · rw [Layout.cursor_dropStale h₁] at hlt
            rw [tokensFrom_eq_of_lt (by omega : s₂.cursor.rest.length < n) (by omega : _ < m)]

end Conform.Markup
