import Conform.Proofs.Markup.Progress
import Conform.Proofs.Markup.Places
import Conform.Text.Lines

/-!
# Plain line ends

Two runs of the reader are compared: one over a text as it is, and one over the text with every
return, and every return and line feed together, as a line feed. They go side by side: whatever a
reader makes of the one, it makes of the other, and it leaves off in front of the same rest with
plain line ends (`Cursor.plain`). This file says so of the characters, of what readers look ahead to,
and of the readers that stay within a line: names, tags and directives. A return in front of a line
feed is a step of the first run only.
-/

namespace Conform.Markup

variable {c : Cursor} {cs : List Char}

/-! ## 1. Characters -/

/-- A character with its line end made plain. -/
def plainEnd (a : Char) : Char :=
  if a = '\r' then '\n' else a

/-- What says the same of returns and of line feeds does not tell plain line ends. -/
theorem apply_plainEnd {α : Type} {f : Char → α} (h : f '\r' = f '\n') (a : Char) :
    f (plainEnd a) = f a := by
  unfold plainEnd
  split
  · rename_i ha
    rw [ha, h]
  · rfl

theorem plainEnd_of_not_break {a : Char} (h : isBreak a = false) : plainEnd a = a := by
  refine if_neg ?_
  rintro rfl
  cases h

theorem isBreak_plainEnd (a : Char) : isBreak (plainEnd a) = isBreak a := apply_plainEnd rfl a

theorem readBreak_plainEnd (a : Char) : readBreak (plainEnd a) = readBreak a := apply_plainEnd rfl a

theorem next_plainEnd (p : Place) (a : Char) : p.next (plainEnd a) = p.next a :=
  apply_plainEnd rfl a

theorem isHalfBreak_of_not_break {a : Char} (h : isBreak a = false) (rest : List Char) :
    isHalfBreak a rest = false := by
  have hne : a ≠ '\r' := by
    rintro rfl
    cases h
  simp [isHalfBreak, hne]

theorem isHalfBreak_plainEnd (a : Char) (rest : List Char) :
    isHalfBreak (plainEnd a) rest = false := by
  unfold plainEnd isHalfBreak
  split
  · rfl
  · rename_i h
    simp [h]

/-- A text with plain line ends goes on in one of three ways: with the same character if that ends
    no line, with nothing yet for the first half of a break, and with a plain line end. -/
theorem plainLines_cases (a : Char) (cs : List Char) :
    (isBreak a = false ∧ plainLines (a :: cs) = a :: plainLines cs) ∨
    (isBreak a = true ∧ isHalfBreak a cs = true ∧ plainLines (a :: cs) = plainLines cs) ∨
    (isBreak a = true ∧ isHalfBreak a cs = false ∧
      plainLines (a :: cs) = plainEnd a :: plainLines cs) := by
  cases hhalf : isHalfBreak a cs with
  | true =>
    obtain ⟨rfl, rest, rfl⟩ := isHalfBreak_iff.mp hhalf
    exact .inr (.inl ⟨rfl, rfl, rfl⟩)
  | false =>
    have hcons : plainLines (a :: cs) = plainEnd a :: plainLines cs := by
      rw [plainLines]
      · rfl
      · rintro rest rfl rfl
        cases hhalf
    cases hbreak : isBreak a with
    | true => exact .inr (.inr ⟨rfl, rfl, hcons⟩)
    | false => exact .inl ⟨rfl, hcons.trans (by rw [plainEnd_of_not_break hbreak])⟩

theorem plainLines_cons {a : Char} (h : isBreak a = false) (cs : List Char) :
    plainLines (a :: cs) = a :: plainLines cs := by
  rcases plainLines_cases a cs with ⟨-, heq⟩ | ⟨hbreak, -⟩ | ⟨hbreak, -⟩
  · exact heq
  · exact absurd (h.symm.trans hbreak) Bool.false_ne_true
  · exact absurd (h.symm.trans hbreak) Bool.false_ne_true

theorem not_isHalfBreak {a : Char} (h : ∀ rest, a = '\r' → cs = '\n' :: rest → False) :
    ¬ isHalfBreak a cs = true := fun hhalf => by
  obtain ⟨ha, rest, hcs⟩ := isHalfBreak_iff.mp hhalf
  exact h rest ha hcs

/-- A return and a line feed together are a line feed. -/
theorem plainLines_pair (cs : List Char) : plainLines ('\r' :: '\n' :: cs) = '\n' :: plainLines cs :=
  rfl

theorem plainLines_half {a : Char} (h : isHalfBreak a cs = true) :
    plainLines (a :: cs) = plainLines cs := by
  obtain ⟨rfl, rest, rfl⟩ := isHalfBreak_iff.mp h
  rfl

theorem plainLines_break {a : Char} (h : ¬ isHalfBreak a cs = true) (ha : isBreak a = true) :
    plainLines (a :: cs) = plainEnd a :: plainLines cs := by
  rcases plainLines_cases a cs with ⟨hbreak, -⟩ | ⟨-, hhalf, -⟩ | ⟨-, -, heq⟩
  · exact absurd (hbreak.symm.trans ha) Bool.false_ne_true
  · exact absurd hhalf h
  · exact heq

theorem plainLines_append : ∀ {front : List Char}, (∀ a ∈ front, isBreak a = false) →
    ∀ cs, plainLines (front ++ cs) = front ++ plainLines cs
  | [], _, _ => rfl
  | a :: front, h, cs => by
      obtain ⟨ha, hfront⟩ := List.forall_mem_cons.mp h
      rw [List.cons_append, plainLines_cons ha, plainLines_append hfront, List.cons_append]

/-- The first character has its line end made plain. -/
theorem head?_plainLines (cs : List Char) : (plainLines cs).head? = cs.head?.map plainEnd := by
  cases cs with
  | nil => rfl
  | cons a cs =>
    rcases plainLines_cases a cs with ⟨hbreak, heq⟩ | ⟨-, hhalf, heq⟩ | ⟨-, -, heq⟩
    · rw [heq, List.head?_cons, List.head?_cons, Option.map_some, plainEnd_of_not_break hbreak]
    · obtain ⟨rfl, rest, rfl⟩ := isHalfBreak_iff.mp hhalf
      rfl
    · rw [heq, List.head?_cons, List.head?_cons, Option.map_some]

theorem head?_plainLines_iff {a : Char} (h : isBreak a = false) :
    (plainLines cs).head? = some a ↔ cs.head? = some a := by
  rw [head?_plainLines, Option.map_eq_some_iff]
  constructor
  · rintro ⟨b, hb, rfl⟩
    rw [isBreak_plainEnd] at h
    rw [hb, plainEnd_of_not_break h]
  · exact fun hhead => ⟨a, hhead, plainEnd_of_not_break h⟩

/-- In front of a word, plain line ends are no matter. -/
theorem plainLines_eq_append_iff : ∀ {front rest cs : List Char}, (∀ a ∈ front, isBreak a = false) →
    (plainLines cs = front ++ rest ↔ ∃ more, cs = front ++ more ∧ plainLines more = rest)
  | [], rest, cs, _ => by simp
  | a :: front, rest, cs, h => by
      obtain ⟨ha, hfront⟩ := List.forall_mem_cons.mp h
      constructor
      · intro heq
        obtain ⟨own, rfl⟩ := List.head?_eq_some_iff.mp
          ((head?_plainLines_iff ha).mp (List.head?_eq_some_iff.mpr ⟨_, heq⟩))
        rw [plainLines_cons ha, List.cons_append, List.cons.injEq,
          plainLines_eq_append_iff hfront] at heq
        obtain ⟨-, more, rfl, rfl⟩ := heq
        exact ⟨more, rfl, rfl⟩
      · rintro ⟨more, rfl, rfl⟩
        exact plainLines_append h more

/-! ## 2. Looking ahead -/

/-- What looks at the first character only, and says the same of returns and of line feeds, does not
    tell plain line ends. -/
theorem lookahead_plainLines {α : Type} {f : List Char → α} {g : Char → α}
    (hf : ∀ a rest, f (a :: rest) = g a) (hg : g '\r' = g '\n') (cs : List Char) :
    f (plainLines cs) = f cs := by
  cases cs with
  | nil => rfl
  | cons a cs =>
    obtain ⟨rest, hrest⟩ := List.head?_eq_some_iff.mp (head?_plainLines (a :: cs))
    rw [hrest, hf, hf, apply_plainEnd hg]

theorem endsWord_plainLines (cs : List Char) : endsWord (plainLines cs) = endsWord cs :=
  lookahead_plainLines (fun _ _ => rfl) rfl cs

theorem endsField_plainLines (cs : List Char) : endsField (plainLines cs) = endsField cs :=
  lookahead_plainLines (fun _ _ => rfl) rfl cs

theorem endsLine_plainLines (cs : List Char) : endsLine (plainLines cs) = endsLine cs :=
  lookahead_plainLines (fun _ _ => rfl) rfl cs

theorem endsName_plainLines (cs : List Char) : endsName (plainLines cs) = endsName cs :=
  lookahead_plainLines (fun _ _ => rfl) rfl cs

/-- A marker stands in front of some characters. -/
theorem startsMarker_iff : startsMarker cs = true ↔
    ∃ rest, (cs = ['-', '-', '-'] ++ rest ∨ cs = ['.', '.', '.'] ++ rest) ∧ endsWord rest = true := by
  constructor
  · intro h
    unfold startsMarker at h
    split at h
    · exact ⟨_, .inl rfl, h⟩
    · exact ⟨_, .inr rfl, h⟩
    · cases h
  · rintro ⟨rest, rfl | rfl, h⟩
    · exact h
    · exact h

theorem startsMarker_plainLines (cs : List Char) :
    startsMarker (plainLines cs) = startsMarker cs := by
  have hhyphens : ∀ a ∈ ['-', '-', '-'], isBreak a = false := by simp [isBreak]
  have hpoints : ∀ a ∈ ['.', '.', '.'], isBreak a = false := by simp [isBreak]
  rw [Bool.eq_iff_iff, startsMarker_iff, startsMarker_iff]
  constructor
  · rintro ⟨rest, hcs, hends⟩
    rw [plainLines_eq_append_iff hhyphens, plainLines_eq_append_iff hpoints] at hcs
    rcases hcs with ⟨more, rfl, rfl⟩ | ⟨more, rfl, rfl⟩
    · exact ⟨more, .inl rfl, (endsWord_plainLines more).symm.trans hends⟩
    · exact ⟨more, .inr rfl, (endsWord_plainLines more).symm.trans hends⟩
  · rintro ⟨rest, rfl | rfl, hends⟩
    · exact ⟨plainLines rest, .inl rfl, (endsWord_plainLines rest).trans hends⟩
    · exact ⟨plainLines rest, .inr rfl, (endsWord_plainLines rest).trans hends⟩

/-- A character of a class that holds no breaks is taken in both runs. -/
theorem takeWhile_plainLines {q : Char → Bool} (hq : breaks.any q = false) :
    ∀ cs, (plainLines cs).takeWhile q = cs.takeWhile q ∧
      (plainLines cs).dropWhile q = plainLines (cs.dropWhile q)
  | [] => ⟨rfl, rfl⟩
  | a :: cs => by
      cases ha : q a with
      | true =>
        have hbreak : isBreak a = false := isBreak_of_class hq ha
        obtain ⟨htake, hdrop⟩ := takeWhile_plainLines hq cs
        rw [plainLines_cons hbreak, List.takeWhile_cons_of_pos ha, List.takeWhile_cons_of_pos ha,
          List.dropWhile_cons_of_pos ha, List.dropWhile_cons_of_pos ha, htake, hdrop]
        exact ⟨rfl, rfl⟩
      | false =>
        have hplain : q (plainEnd a) = false := by
          cases hb : isBreak a with
          | true =>
            exact Bool.eq_false_iff.mpr
              (List.any_eq_false.mp hq _ (mem_breaks_iff.mpr ((isBreak_plainEnd a).trans hb)))
          | false => rw [plainEnd_of_not_break hb, ha]
        obtain ⟨rest, hrest⟩ := List.head?_eq_some_iff.mp (head?_plainLines (a :: cs))
        rw [List.takeWhile_cons_of_neg (by simp [ha]), List.dropWhile_cons_of_neg (by simp [ha]),
          hrest, List.takeWhile_cons_of_neg (by simp [hplain]),
          List.dropWhile_cons_of_neg (by simp [hplain])]
        exact ⟨rfl, rfl⟩

/-! ## 3. Cursors -/

namespace Cursor

/-- The cursor of the second run: the rest has plain line ends. -/
def plain (c : Cursor) : Cursor :=
  ⟨plainLines c.rest, c.place⟩

/-- Nothing that ends a line stands in front. -/
def Inline (c : Cursor) : Prop :=
  ∀ a ∈ c.rest.head?, isBreak a = false

theorem inline_of_head? {a : Char} (h : c.rest.head? = some a) (ha : isBreak a = false) :
    c.Inline := by
  rw [Inline, h]
  rintro _ ⟨⟩
  exact ha

theorem drop_plain {n : Nat} (h : ∀ a ∈ c.rest.take n, isBreak a = false) :
    c.plain.drop n = (c.drop n).plain := by
  have hrest : plainLines c.rest = c.rest.take n ++ plainLines (c.rest.drop n) := by
    rw [← plainLines_append h, List.take_append_drop]
  have htaken : (plainLines c.rest).take n = c.rest.take n ∧
      (plainLines c.rest).drop n = plainLines (c.rest.drop n) := by
    rcases Nat.le_total n c.rest.length with hle | hle
    · have hlength : (c.rest.take n).length = n := List.length_take_of_le hle
      rw [hrest]
      exact ⟨List.take_left' hlength, List.drop_left' hlength⟩
    · rw [List.take_of_length_le hle] at h ⊢
      have hself : plainLines c.rest = c.rest := by
        have happend := plainLines_append h []
        rwa [List.append_nil, show plainLines [] = [] from rfl, List.append_nil] at happend
      rw [hself, List.drop_of_length_le hle]
      exact ⟨List.take_of_length_le hle, rfl⟩
  show past c.plain ((plainLines c.rest).take n) ((plainLines c.rest).drop n) = _
  rw [htaken.1, htaken.2]
  rfl

theorem Inline.of_mem_take (h : c.Inline) {a : Char} (ha : a ∈ c.rest.take 1) :
    isBreak a = false := by
  cases hrest : c.rest with
  | nil =>
    rw [hrest] at ha
    cases ha
  | cons b rest =>
    rw [hrest] at ha
    rw [List.mem_singleton.mp ha]
    exact h b (by rw [hrest]; rfl)

theorem drop_one_plain (h : c.Inline) : c.plain.drop 1 = (c.drop 1).plain :=
  drop_plain fun _ => h.of_mem_take

end Cursor

/-- What a reader has read, in front of a rest with plain line ends. -/
def behind {α : Type} (r : α × Cursor) : α × Cursor :=
  (r.1, r.2.plain)

theorem takeWhile_plain {q : Char → Bool} (hq : breaks.any q = false) (c : Cursor) :
    c.plain.takeWhile q = behind (c.takeWhile q) := by
  obtain ⟨htake, hdrop⟩ := takeWhile_plainLines hq c.rest
  show ((plainLines c.rest).takeWhile q,
    c.plain.past ((plainLines c.rest).takeWhile q) ((plainLines c.rest).dropWhile q)) = _
  rw [htake, hdrop]
  rfl

theorem skipSpaces_plain (c : Cursor) : c.plain.skipSpaces = c.skipSpaces.plain :=
  congrArg Prod.snd (takeWhile_plain (by decide) c)

/-! ## 4. Names, tags and directives -/

theorem readName_plain (c : Cursor) : readName c.plain = (readName c).map behind := by
  unfold readName
  rw [takeWhile_plain (by decide)]
  simp only [behind, Cursor.plain, endsName_plainLines]
  split <;> rfl

theorem escapedByte?_plainLines (cs : List Char) :
    escapedByte? (plainLines cs) = (escapedByte? cs).map fun e => (e.1, plainLines e.2) := by
  refine Option.ext fun ⟨e, rest⟩ => ?_
  rw [escapedByte?_eq_some_iff, Option.map_eq_some_iff]
  constructor
  · rintro ⟨a, b, x, y, hcs, hx, hy, rfl⟩
    have hdigits : ∀ d ∈ [a, b], isBreak d = false := List.forall_mem_cons.mpr
      ⟨isBreak_of_baseDigit? hx, List.forall_mem_singleton.mpr (isBreak_of_baseDigit? hy)⟩
    obtain ⟨more, rfl, rfl⟩ := (plainLines_eq_append_iff hdigits).mp hcs
    exact ⟨_, escapedByte?_eq_some_iff.mpr ⟨a, b, x, y, rfl, hx, hy, rfl⟩, rfl⟩
  · rintro ⟨⟨e', more⟩, hescape, heq⟩
    obtain ⟨a, b, x, y, rfl, hx, hy, rfl⟩ := escapedByte?_eq_some_iff.mp hescape
    cases heq
    refine ⟨a, b, x, y, ?_, hx, hy, rfl⟩
    rw [plainLines_cons (isBreak_of_baseDigit? hx), plainLines_cons (isBreak_of_baseDigit? hy)]

theorem readTagText_plainLines {bytes : List UInt8} :
    readTagText bytes (plainLines cs) =
      (readTagText bytes cs).map fun r => (r.1, plainLines r.2) := by
  induction hn : cs.length using Nat.strongRecOn generalizing cs bytes with
  | ind n ih =>
    cases cs with
    | nil =>
      rw [show plainLines [] = [] from rfl, readTagText_nil]
      cases String.fromUTF8? ⟨bytes.reverse.toArray⟩ <;> rfl
    | cons a cs =>
      by_cases ha : a = '%'
      · subst ha
        rw [plainLines_cons (by decide), readTagText_percent, readTagText_percent,
          escapedByte?_plainLines]
        cases hescape : escapedByte? cs with
        | none => rfl
        | some e =>
          obtain ⟨_, _, _, _, rfl, -⟩ := escapedByte?_eq_some_iff.mp hescape
          exact ih e.2.length (by simp at hn; omega) rfl
      · by_cases hchar : isTagChar a = true
        · rw [plainLines_cons (isBreak_of_isTagChar hchar), readTagText_cons ha,
            readTagText_cons ha, ih cs.length (by simp at hn; omega) rfl]
          cases String.fromUTF8? ⟨bytes.reverse.toArray⟩ with
          | none => rfl
          | some s =>
            simp only [Option.elim_some, hchar, if_true]
            cases readTagText [] cs <;> rfl
        · -- the tag ends in front of the character, whatever line end it may be
          obtain ⟨rest, hrest⟩ := List.head?_eq_some_iff.mp (head?_plainLines (a :: cs))
          have hend : ¬ isTagChar (plainEnd a) = true := by
            rwa [apply_plainEnd (f := isTagChar) (by decide)]
          have hpercent : plainEnd a ≠ '%' := fun h =>
            ha ((plainEnd_of_not_break (by rw [← isBreak_plainEnd, h]; decide)).symm.trans h)
          rw [hrest, readTagText_cons hpercent, readTagText_cons ha, ← hrest]
          cases String.fromUTF8? ⟨bytes.reverse.toArray⟩ with
          | none => rfl
          | some s =>
            simp only [Option.elim_some, hend, hchar, Bool.false_eq_true, if_false]
            rfl

theorem readTagRest_plain (c : Cursor) : readTagRest c.plain = (readTagRest c).map behind := by
  refine bind_map readTagText_plainLines fun ⟨text, rest⟩ htext => ?_
  obtain ⟨taken, htaken, hbreaks⟩ := readTagText_taken htext
  dsimp only
  split
  · rfl
  · have htake : ∀ more : List Char,
        (taken ++ more).take ((taken ++ more).length - more.length) = taken := fun more => by
      rw [List.length_append, Nat.add_sub_cancel, List.take_left]
    have hplain : c.plain.rest = taken ++ plainLines rest := by
      rw [← plainLines_append hbreaks, ← htaken]
      rfl
    simp only [hplain, htake]
    rw [htaken, htake]
    rfl

/-- A name between two marks ends no line. -/
theorem isBreak_of_mem_handle {name : List Char} (h : ∀ a ∈ name, isNameChar a = true)
    (more : List Char) :
    ∀ a ∈ ('!' :: (name ++ '!' :: more)).take (name.length + 2), isBreak a = false := by
  have htaken : ('!' :: (name ++ '!' :: more)).take (name.length + 2) = '!' :: (name ++ ['!']) := by
    have hlength : (name ++ ['!']).length = name.length + 1 := by simp
    have hsplit : name ++ '!' :: more = name ++ ['!'] ++ more := by simp
    rw [List.take_succ_cons, hsplit, List.take_left' hlength]
  have hmark : isBreak '!' = false := by decide
  rw [htaken]
  refine List.forall_mem_cons.mpr ⟨hmark, List.forall_mem_append.mpr ⟨fun a ha => ?_, ?_⟩⟩
  · exact isBreak_of_class (by decide) (h a ha)
  · exact List.forall_mem_singleton.mpr hmark

theorem readHandle_plain (c : Cursor) : readHandle c.plain = (readHandle c).map behind := by
  unfold readHandle
  by_cases hmark : c.rest.head? = some '!'
  · have hinline : c.Inline := Cursor.inline_of_head? hmark (by decide)
    have hdrop : c.plain.rest.drop 1 = plainLines (c.rest.drop 1) :=
      congrArg Cursor.rest (Cursor.drop_one_plain hinline)
    have hmark' : c.plain.rest.head? = some '!' := (head?_plainLines_iff (by decide)).mpr hmark
    obtain ⟨htake, hdropWhile⟩ := takeWhile_plainLines (q := isNameChar) (by decide) (c.rest.drop 1)
    simp only [hmark, hmark', if_true, hdrop, htake, hdropWhile,
      head?_plainLines_iff (a := ' ') (by decide), head?_plainLines_iff (a := '!') (by decide)]
    split
    · rw [Cursor.drop_one_plain hinline]
      rfl
    · split
      · rename_i hend
        obtain ⟨rest, hrest⟩ := List.head?_eq_some_iff.mp hmark
        obtain ⟨more, hmore⟩ := List.head?_eq_some_iff.mp hend
        have heq : c.rest = '!' :: ((c.rest.drop 1).takeWhile isNameChar ++ '!' :: more) := by
          rw [← hmore, List.takeWhile_append_dropWhile, hrest]
          rfl
        have hname : ∀ a ∈ (c.rest.drop 1).takeWhile isNameChar, isNameChar a = true :=
          List.all_eq_true.mp List.all_takeWhile
        have hinside : ∀ a ∈ c.rest.take (((c.rest.drop 1).takeWhile isNameChar).length + 2),
            isBreak a = false := by
          generalize (c.rest.drop 1).takeWhile isNameChar = name at heq hname ⊢
          rw [heq]
          exact isBreak_of_mem_handle hname more
        rw [Cursor.drop_plain hinside]
        rfl
      · rfl
  · have hmark' : ¬ c.plain.rest.head? = some '!' := fun h =>
      hmark ((head?_plainLines_iff (by decide)).mp h)
    simp only [hmark, hmark', if_false]
    rfl

theorem hasHandle_plainLines : ∀ cs : List Char, hasHandle (plainLines cs) = hasHandle cs
  | [] => rfl
  | a :: cs => by
      rcases plainLines_cases a cs with ⟨-, heq⟩ | ⟨hbreak, -, -⟩ | ⟨hbreak, -, -⟩
      · rw [heq, hasHandle, hasHandle, hasHandle_plainLines cs]
      all_goals
        obtain ⟨rest, hrest⟩ := List.head?_eq_some_iff.mp (head?_plainLines (a :: cs))
        rw [hrest, hasHandle, hasHandle, isBreak_plainEnd, hbreak, Bool.or_true, Bool.or_true]
        rfl

theorem readTagHandle_plain (h : c.Inline) :
    readTagHandle c.plain = (readTagHandle c).map behind := by
  unfold readTagHandle
  have hdrop : c.plain.rest.drop 1 = plainLines (c.rest.drop 1) :=
    congrArg Cursor.rest (Cursor.drop_one_plain h)
  rw [hdrop, hasHandle_plainLines, Cursor.drop_one_plain h]
  split
  · exact readHandle_plain c
  · rfl

theorem readFullTag_plain (h : ∀ a ∈ c.rest.take 2, isBreak a = false) :
    readFullTag c.plain = (readFullTag c).map behind := by
  unfold readFullTag
  rw [Cursor.drop_plain h]
  refine bind_map (readTagRest_plain _) fun ⟨suffix, after⟩ _ => ?_
  simp only [behind, Cursor.plain, head?_plainLines_iff (a := '>') (by decide)]
  split
  · rename_i hmark
    rw [show (⟨plainLines after.rest, after.place⟩ : Cursor) = after.plain from rfl,
      Cursor.drop_one_plain (Cursor.inline_of_head? hmark (by decide))]
    rfl
  · rfl

theorem readShortTag_plain (h : c.Inline) :
    readShortTag c.plain = (readShortTag c).map behind := by
  refine bind_map (readTagHandle_plain h) fun ⟨handle, after⟩ _ => ?_
  exact bind_map (readTagRest_plain after) fun ⟨suffix, after⟩ _ => rfl

theorem readTagForm_plain (h : c.Inline) : readTagForm c.plain = (readTagForm c).map behind := by
  unfold readTagForm
  have hdrop : c.plain.rest.drop 1 = plainLines (c.rest.drop 1) :=
    congrArg Cursor.rest (Cursor.drop_one_plain h)
  simp only [hdrop, head?_plainLines_iff (a := '<') (by decide), endsWord_plainLines]
  split
  · rename_i hmark
    obtain ⟨rest, hrest⟩ := List.head?_eq_some_iff.mp hmark
    refine readFullTag_plain fun a ha => ?_
    rw [show 2 = 1 + 1 from rfl, List.take_add, hrest] at ha
    rcases List.mem_append.mp ha with ha | ha
    · exact h.of_mem_take ha
    · rw [List.mem_singleton.mp ha]
      decide
  · split
    · rw [Cursor.drop_one_plain h]
      rfl
    · exact readShortTag_plain h

/-- A result that is checked by what follows it. -/
theorem checked_plain {α : Type} (q : List Char → Bool) (hq : ∀ cs, q (plainLines cs) = q cs)
    (r : α × Cursor) :
    (if q (behind r).2.rest then pure (behind r) else throw Fault.malformed : Except Fault _) =
      (if q r.2.rest then pure r else throw Fault.malformed : Except Fault _).map behind := by
  have heq : q (behind r).2.rest = q r.2.rest := hq r.2.rest
  rw [heq]
  split <;> rfl

theorem readTag_plain (h : c.Inline) : readTag c.plain = (readTag c).map behind :=
  bind_map (readTagForm_plain h) fun r _ => checked_plain endsField endsField_plainLines r

theorem readVersionNumber_plain (c : Cursor) :
    readVersionNumber c.plain = (readVersionNumber c).map behind := by
  unfold readVersionNumber
  rw [takeWhile_plain (by decide)]
  rcases c.takeWhile fun d => (plainDigit? d).isSome with ⟨ds, after⟩
  cases ds with
  | nil => rfl
  | cons d ds =>
    simp only [behind, List.isEmpty_cons, Bool.false_eq_true, if_false]
    cases Numeral.natural? 10 (d :: ds) <;> rfl

theorem readVersion_plain (c : Cursor) : readVersion c.plain = (readVersion c).map behind := by
  unfold readVersion
  rw [skipSpaces_plain]
  refine bind_map (readVersionNumber_plain _) fun ⟨major, after⟩ _ => ?_
  simp only [behind, Cursor.plain, head?_plainLines_iff (a := '.') (by decide)]
  split
  · rename_i hmark
    rw [show (⟨plainLines after.rest, after.place⟩ : Cursor) = after.plain from rfl,
      Cursor.drop_one_plain (Cursor.inline_of_head? hmark (by decide))]
    refine bind_map (readVersionNumber_plain _) fun ⟨minor, after⟩ _ => ?_
    exact checked_plain endsField endsField_plainLines (Directive.version major minor, after)
  · rfl

theorem readHandleDirective_plain (c : Cursor) :
    readHandleDirective c.plain = (readHandleDirective c).map behind := by
  unfold readHandleDirective
  rw [skipSpaces_plain]
  refine bind_map (readHandle_plain _) fun ⟨handle, after⟩ _ => ?_
  simp only [behind, Cursor.plain, head?_plainLines_iff (a := ' ') (by decide)]
  split
  · rw [show (⟨plainLines after.rest, after.place⟩ : Cursor) = after.plain from rfl,
      skipSpaces_plain]
    refine bind_map (readTagRest_plain _) fun ⟨full, after⟩ _ => ?_
    exact checked_plain endsField endsField_plainLines (Directive.handle handle full, after)
  · rfl

theorem skipBreak_plain (c : Cursor) : c.plain.skipBreak = c.skipBreak.plain := by
  obtain ⟨_ | ⟨a, cs⟩, p⟩ := c
  · rfl
  · rcases plainLines_cases a cs with ⟨hbreak, heq⟩ | ⟨-, hhalf, heq⟩ | ⟨-, hhalf, heq⟩
    · show Cursor.skipBreak ⟨plainLines (a :: cs), p⟩ = _
      simp only [Cursor.skipBreak, heq, isHalfBreak_of_not_break hbreak, Bool.false_eq_true, if_false]
      rfl
    · obtain ⟨rfl, rest, rfl⟩ := isHalfBreak_iff.mp hhalf
      rfl
    · show Cursor.skipBreak ⟨plainLines (a :: cs), p⟩ = _
      simp only [Cursor.skipBreak, heq, isHalfBreak_plainEnd, hhalf, next_plainEnd,
        Bool.false_eq_true, if_false]
      rfl

theorem skipComment_plain (c : Cursor) : skipComment c.plain = (skipComment c).plain := by
  unfold skipComment
  simp only [Cursor.plain, head?_plainLines_iff (a := '#') (by decide)]
  split
  · exact congrArg Prod.snd (takeWhile_plain (q := (!isBreak ·)) (by decide) c)
  · rfl

theorem skipRestOfLine_plain (c : Cursor) :
    skipRestOfLine c.plain = (skipRestOfLine c).map Cursor.plain := by
  unfold skipRestOfLine
  rw [skipSpaces_plain, skipComment_plain]
  simp only [skipBreak_plain]
  rw [show ∀ d : Cursor, endsLine d.plain.rest = endsLine d.rest from
    fun d => endsLine_plainLines d.rest]
  split <;> rfl

theorem readDirectiveNamed_plain (name : List Char) (c : Cursor) :
    readDirectiveNamed name c.plain = (readDirectiveNamed name c).map behind := by
  unfold readDirectiveNamed
  split
  · exact readVersion_plain c
  · split
    · exact readHandleDirective_plain c
    · exact congrArg (fun r => Except.ok (Directive.other, r.2))
        (takeWhile_plain (q := (!isBreak ·)) (by decide) c)

theorem readDirective_plain (c : Cursor) : readDirective c.plain = (readDirective c).map behind := by
  unfold readDirective
  rw [takeWhile_plain (by decide)]
  simp only [behind, show ∀ d : Cursor, endsField d.plain.rest = endsField d.rest from
    fun d => endsField_plainLines d.rest]
  split
  · rfl
  · refine bind_map (readDirectiveNamed_plain _ _) fun ⟨d, after⟩ _ => ?_
    exact bind_map (skipRestOfLine_plain after) fun after _ => rfl

end Conform.Markup
