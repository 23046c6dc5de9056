import Conform.Proofs.Markup.Scalar.Block
import Conform.Proofs.Markup.Scalar.Forms
import Conform.Proofs.Markup.Scalar.Single
import Conform.Proofs.Markup.Tokens
import Conform.Proofs.Record

/-!
# Atoms in a document

What is written for one atom and how it is read again, whatever its style: a plain form, a text in
single or double quotes, or a block of bytes under its tag. This file fixes the text of each
(`scalarText`) and the tokens that have to come of it (`atomTokens`), and shows one style after the
other that behind a mark the text is read as those tokens, up to the next line (`arrives_atom`).
-/

namespace Conform.Markup

/-! ## 1. Pieces and lines -/

namespace Piece

theorem andThen_apply (a b : Piece) (p : Pen) :
    a.andThen b p = ((a p).1 ++ (b (a p).2).1, (b (a p).2).2) := rfl

theorem andThen_assoc (a b c : Piece) : (a.andThen b).andThen c = a.andThen (b.andThen c) := by
  funext p
  simp [andThen_apply]

@[simp] theorem nothing_andThen (a : Piece) : nothing.andThen a = a := by
  funext p
  simp [andThen_apply, nothing]

/-- Behind anything but indentation and indicators an indentation starts a line. -/
theorem indent_of_used {p : Pen} (h : p.fresh = false) (n : Nat) :
    indent n p = (newLine n, ⟨n, true, true⟩) := by
  simp [indent, h, newLine]

/-- Behind an indicator an indentation goes on with the line. -/
theorem indent_of_fresh {p : Pen} (h : p.fresh = true) {n : Nat} (hn : p.column < n) :
    indent n p = (List.replicate (n - p.column) ' ', ⟨n, true, true⟩) := by
  simp [indent, h, hn, Nat.max_eq_right (Nat.le_of_lt hn)]

theorem indent_of_start (n : Nat) : indent n {} = (List.replicate n ' ', ⟨n, true, true⟩) := by
  by_cases hn : 0 < n
  · exact indent_of_fresh rfl hn
  · obtain rfl : n = 0 := by omega
    rfl

/-- A piece writes a text, and the next line starts behind it. -/
def Writes (a : Piece) (p : Pen) (text : List Char) : Prop :=
  ∀ j, a.andThen (indent j) p = (text ++ newLine j, ⟨j, true, true⟩)

theorem Writes.of_used {a : Piece} {p : Pen} {text : List Char} (h : (a p).1 = text)
    (hused : (a p).2.fresh = false) : a.Writes p text := fun j => by
  rw [andThen_apply, h, indent_of_used hused]

/-- A piece that ends its own line. -/
theorem Writes.of_ended {a : Piece} {p : Pen} {text : List Char} (h : a p = (text ++ ['\n'], {})) :
    a.Writes p text := fun j => by
  rw [andThen_apply, h, indent_of_start, newLine]
  simp

theorem word_of_unspaced {p : Pen} (h : p.spaced = false) (s : List Char) :
    word s p = (' ' :: s, { column := p.column + s.length + 1, spaced := false, fresh := false }) := by
  simp [word, indicator, h, Nat.add_assoc]

theorem word_of_spaced {p : Pen} (h : p.spaced = true) (s : List Char) :
    word s p = (s, { column := p.column + s.length, spaced := false, fresh := false }) := by
  simp [word, indicator, h]

end Piece

/-! ## 2. The text of an atom -/

/-- A plain text or an atom's form as it is written from a column on. -/
def scalarText (folds : Bool) (n column : Nat) : Atom → List Char
  | .str t =>
    match Style.ofText t with
    | .plain cs => (plainFrom folds n 0 column cs).1
    | .single cs => '\'' :: ((singleFrom folds n false [] (column + 1) cs).1 ++ ['\''])
    | .double t => '"' :: ((doubleFrom folds n true true (column + 1) t).1 ++ ['"'])
  | .bytes bs =>
    Tag.binary.short ++ ' ' ::
      (if bs.isEmpty then ['"', '"'] else '|' :: indented n (byteLines bs))
  | a => (plainFrom folds n 0 column (plainForm a)).1

/-- Everything but strings and bytes is written as its plain form. -/
theorem atomPiece_of_form (spot : Spot) (indent : Option Nat) {a : Atom} (hstr : ∀ t, a ≠ .str t)
    (hbytes : ∀ bs, a ≠ .bytes bs) :
    atomPiece spot indent a = plainPiece (spot != .key) (scalarIndent indent) (plainForm a) := by
  unfold atomPiece
  split
  · exact absurd rfl (hstr _)
  · exact absurd rfl (hbytes _)
  · rfl

theorem scalarText_of_form (folds : Bool) (n column : Nat) {a : Atom} (hstr : ∀ t, a ≠ .str t)
    (hbytes : ∀ bs, a ≠ .bytes bs) :
    scalarText folds n column a = (plainFrom folds n 0 column (plainForm a)).1 := by
  unfold scalarText
  split
  · exact absurd rfl (hstr _)
  · exact absurd rfl (hbytes _)
  · rfl

theorem writes_plainPiece (folds : Bool) (n : Nat) (cs : List Char) {p : Pen}
    (hp : p.spaced = false) : (plainPiece folds n cs).Writes p
      (' ' :: (plainFrom folds n 0 (p.column + 1) cs).1) := by
  refine .of_used ?_ rfl
  simp [plainPiece, hp]

theorem writes_singlePiece (folds : Bool) (n : Nat) (cs : List Char) {p : Pen}
    (hp : p.spaced = false) : (singlePiece folds n cs).Writes p
      (' ' :: '\'' :: ((singleFrom folds n false [] (p.column + 1 + 1) cs).1 ++ ['\''])) := by
  refine .of_used ?_ ?_
  · simp [singlePiece, Piece.andThen_apply, Piece.word_of_unspaced hp, Piece.indicator]
  · simp [singlePiece, Piece.andThen_apply, Piece.word_of_unspaced hp, Piece.indicator]

theorem writes_doublePiece (folds : Bool) (n : Nat) (t : Text) {p : Pen}
    (hp : p.spaced = false) : (doublePiece folds n t).Writes p
      (' ' :: '"' :: ((doubleFrom folds n true true (p.column + 1 + 1) t).1 ++ ['"'])) := by
  refine .of_used ?_ ?_
  · simp [doublePiece, Piece.andThen_apply, Piece.word_of_unspaced hp, Piece.indicator]
  · simp [doublePiece, Piece.andThen_apply, Piece.word_of_unspaced hp, Piece.indicator]

theorem writes_bytesPiece (n : Nat) (bs : List UInt8) {p : Pen} (hp : p.spaced = false) :
    (bytesPiece n bs).Writes p (' ' :: (Tag.binary.short ++ ' ' ::
      (if bs.isEmpty then ['"', '"'] else '|' :: indented n (byteLines bs)))) := by
  rw [bytesPiece]
  split
  · refine .of_used ?_ ?_
    · simp [doublePiece, Piece.andThen_apply, Piece.word_of_unspaced hp, Piece.word_of_unspaced,
        Piece.indicator, doubleFrom]
    · simp [doublePiece, Piece.andThen_apply, Piece.word_of_unspaced hp, Piece.word_of_unspaced,
        Piece.indicator, doubleFrom]
  · refine .of_ended ?_
    rw [literalLines_encode]
    simp [Piece.andThen_apply, Piece.word_of_unspaced hp, Piece.word_of_unspaced]

/-- Behind an indicator an atom is written after a space. -/
theorem writes_atomPiece (spot : Spot) (indent : Option Nat) (a : Atom) {p : Pen}
    (hp : p.spaced = false) : (atomPiece spot indent a).Writes p
      (' ' :: scalarText (spot != .key) (scalarIndent indent) (p.column + 1) a) := by
  by_cases hstr : ∃ t, a = .str t
  · obtain ⟨t, rfl⟩ := hstr
    rw [atomPiece, scalarText]
    cases Style.ofText t with
    | plain cs => exact writes_plainPiece _ _ cs hp
    | single cs => exact writes_singlePiece _ _ cs hp
    | double t => exact writes_doublePiece _ _ t hp
  · by_cases hbytes : ∃ bs, a = .bytes bs
    · obtain ⟨bs, rfl⟩ := hbytes
      exact writes_bytesPiece _ bs hp
    · rw [not_exists] at hstr hbytes
      rw [atomPiece_of_form spot indent hstr hbytes, scalarText_of_form _ _ _ hstr hbytes]
      exact writes_plainPiece _ _ (plainForm a) hp

/-! ## 3. The tokens of an atom -/

/-- The tag that bytes are written with. -/
def binaryTag : WrittenTag := ⟨some "!!".toList, Tag.binary.name⟩

/-- The tokens that are read for an atom. -/
def atomTokens (folds : Bool) (n : Nat) : Atom → List Token
  | .str t =>
    match Style.ofText t with
    | .plain _ => [.scalar true t]
    | .single _ => [.scalar false t]
    | .double _ => [.scalar false (returned folds n true t)]
  | .bytes bs => [.tag binaryTag, .scalar false (Text.ofChars (Base64.encode bs))]
  | a => [.scalar true (Text.ofChars (plainForm a))]

/-! ## 4. Plain scalars -/

open Layout Style

/-- What the first character of a plain scalar is not. -/
theorem first_of_fitsPlain {c : Char} {cs : List Char} (h : fitsPlain (c :: cs) = true) :
    isShown c = true ∧ openers.contains c = false ∧ c ≠ ' ' ∧ c ≠ '#' ∧
      (c = '-' ∨ c = '?' ∨ c = ':' → atGap cs = false) ∧
      ∀ rest, startsMarker (c :: cs ++ ':' :: rest) = false := by
  obtain ⟨hshown, hstart, hgoes, -⟩ := fitsPlain_iff.mp h
  have hc := hshown c List.mem_cons_self
  have hhash : c ≠ '#' := by
    rintro rfl
    simp [goesOnPlainly, isGap] at hgoes
  unfold startsPlainly at hstart
  split at hstart
  · cases hstart
  · cases hstart
  · cases hstart
  · rename_i d ds hhyphens hpoints heq
    obtain ⟨rfl, rfl⟩ := List.cons.inj heq
    simp only [Bool.and_eq_true, Bool.not_eq_true', bne_iff_ne, Bool.and_eq_false_iff] at hstart
    obtain ⟨⟨hopener, hspace⟩, hsign⟩ := hstart
    refine ⟨hc, hopener, hspace, hhash, fun hmark => ?_, fun rest => ?_⟩
    · rcases hsign with hsign | hgap
      · rcases hmark with rfl | rfl | rfl <;> simp at hsign
      · exact hgap
    · have hthree : ∀ e : Char, e ≠ ':' → (∀ more, c = e → cs = e :: e :: more → False) →
          ∀ more, c :: cs ++ ':' :: rest ≠ e :: e :: e :: more := by
        intro e he hno more heq
        rcases cs with _ | ⟨a, _ | ⟨b, cs⟩⟩
        · exact he (List.cons.inj (List.cons.inj heq).2).1.symm
        · exact he (List.cons.inj (List.cons.inj (List.cons.inj heq).2).2).1.symm
        · obtain ⟨h₁, heq⟩ := List.cons.inj heq
          obtain ⟨h₂, heq⟩ := List.cons.inj heq
          obtain ⟨h₃, heq⟩ := List.cons.inj heq
          exact hno cs h₁ (by rw [h₂, h₃])
      unfold startsMarker
      split
      · rename_i heq
        exact absurd heq (hthree '-' (by decide) hhyphens _)
      · rename_i heq
        exact absurd heq (hthree '.' (by decide) hpoints _)
      · rfl

theorem solid_plainText {folds : Bool} {n column : Nat} {cs : List Char} (h : fitsPlain cs = true)
    (rest : List Char) : Solid ((plainFrom folds n 0 column cs).1 ++ rest) := by
  obtain ⟨c, more, column', rfl, hspace, hwrite⟩ := plainFrom_first folds n column h
  obtain ⟨hshown, -, -, hhash, -⟩ := first_of_fitsPlain h
  rw [hwrite]
  exact ⟨hspace, hhash, isBreak_of_isShown hshown⟩

theorem takeToken_plainText {folds : Bool} {n column : Nat} {cs rest : List Char} {p : Place}
    {tokens : List Token} {columns : List Nat} {allowed : Bool} {candidate : Option Candidate}
    (h : fitsPlain cs = true)
    (hmarker : p.column = 0 → startsMarker ((plainFrom folds n 0 column cs).1 ++ rest) = false) :
    (block ⟨(plainFrom folds n 0 column cs).1 ++ rest, p⟩ tokens columns allowed
        candidate).takeToken =
      (block ⟨(plainFrom folds n 0 column cs).1 ++ rest, p⟩ tokens columns allowed
        candidate).takePlain := by
  obtain ⟨c, more, column', rfl, hspace, hwrite⟩ := plainFrom_first folds n column h
  obtain ⟨hshown, hopener, -, -, hmark, -⟩ := first_of_fitsPlain h
  have hmore := (List.forall_mem_cons.mp (fitsPlain_iff.mp h).1).2
  rw [hwrite] at hmarker ⊢
  rw [List.cons_append] at hmarker ⊢
  exact takeToken_plain hshown hopener hspace
    (fun hsign => endsWord_plainFrom hmore (hmark hsign)) hmarker

/-- A plain scalar behind a space, up to the next line. -/
theorem arrives_plain {folds : Bool} {n column j : Nat} {cs rest : List Char} {p : Place}
    {tokens : List Token} {columns : List Nat} {allowed : Bool} (h : fitsPlain cs = true)
    (hn : 0 < n) (hin : innermost columns < n) (hp : innermost columns ≤ p.column)
    (hj : (j : Int) ≤ innermost columns ∨ (j = 0 ∧ startsMarker rest = true))
    (hsolid : Solid rest) :
    (block ⟨' ' :: ((plainFrom folds n 0 column cs).1 ++ (newLine j ++ rest)), p⟩ tokens columns
        allowed none).Arrives
      ⟨rest, p.after (' ' :: ((plainFrom folds n 0 column cs).1 ++ newLine j))⟩ columns
      (.scalar true (Text.ofChars cs) :: tokens) := by
  have hcolumn : (p.next ' ').column = p.column + 1 := rfl
  have hplace : p.after (' ' :: ((plainFrom folds n 0 column cs).1 ++ newLine j)) =
      ((p.next ' ').after (plainFrom folds n 0 column cs).1).after (newLine j) := by
    rw [Place.after_cons, Place.after_append]
  have hj' : (j : Int) < innermost columns + 1 ∨ (j = 0 ∧ startsMarker rest = true) :=
    hj.imp_left Int.lt_add_one_of_le
  obtain ⟨c, hread, hlength, broken, hskip⟩ := readPlainFrom_newLine_end cs.reverse hsolid hj'
    ((p.next ' ').after (plainFrom folds n 0 column cs).1)
  have hplain : readPlain false (innermost columns + 1)
      ⟨(plainFrom folds n 0 column cs).1 ++ (newLine j ++ rest), p.next ' '⟩ = ⟨cs, true, c⟩ := by
    rw [readPlain_plainFrom hn (by omega) (by rw [hcolumn]; omega) h, hread, List.reverse_reverse]
  have htake : (block ⟨(plainFrom folds n 0 column cs).1 ++ (newLine j ++ rest), p.next ' '⟩ tokens
      columns allowed none).takeToken = _ :=
    (takeToken_plainText h fun hzero => by omega).trans (takePlain_block hplain)
  rw [hplace]
  refine arrives_of_take (front_space (solid_plainText h _) hp (by simp)) htake (by simp) ?_ ?_ hskip rfl ?_
  · simp only [List.length_append] at hlength ⊢
    omega
  · rw [hcolumn]
    omega
  · rw [Place.line_after_newLine]
    exact Nat.lt_succ_of_le (Place.line_le_after _ _)

/-! ## 5. Quoted scalars -/

/-- The mark around a quoted scalar. -/
def quote (double : Bool) : Char :=
  if double then '"' else '\''

/-- A written scalar in quotes is read as a text, whatever stands behind it but another mark. -/
def Quotes (double : Bool) (inner : List Char) (t : Text) : Prop :=
  ∀ (rest : List Char) (p : Place), rest.head? ≠ some '\'' →
    readQuoted double ⟨quote double :: (inner ++ rest), p⟩ =
      .ok (t, ⟨rest, p.after (quote double :: inner)⟩)

theorem quotes_single (folds : Bool) {n : Nat} (column : Nat) {cs : List Char} (hn : 0 < n)
    (h : fitsSingle cs = true) (hproper : CodePoint.char '\x85' ∉ Text.ofChars cs) :
    Quotes false ((singleFrom folds n false [] column cs).1 ++ ['\'']) (Text.ofChars cs) := by
  intro rest p hrest
  obtain ⟨hchars, hspace⟩ := fitsSingle_chars h hproper
  have hgap : IsGap [] := .inl (by simp)
  rw [readQuoted]
  simp only [Cursor.drop_one, Bool.false_eq_true, if_false, List.append_assoc,
    List.singleton_append]
  rw [readSingleFrom_singleFrom hn hrest hchars hgap hspace]
  rfl

theorem quotes_double (folds : Bool) {n column : Nat} (hn : 0 < n) (hcolumn : n ≤ column)
    (t : Text) : Quotes true ((doubleFrom folds n true true column t).1 ++ ['"'])
      (returned folds n true t) := by
  intro rest p _
  rw [readQuoted]
  simp only [Cursor.drop_one, if_true, List.append_assoc, List.singleton_append]
  rw [readDoubleFrom_doubleFrom hn rest t hcolumn (resumes_none t)]
  rfl

theorem takeToken_quoted {double : Bool} {rest : List Char} {p : Place} {tokens : List Token}
    {columns : List Nat} {allowed : Bool} {candidate : Option Candidate} :
    (block ⟨quote double :: rest, p⟩ tokens columns allowed candidate).takeToken =
      (block ⟨quote double :: rest, p⟩ tokens columns allowed candidate).takeQuoted double := by
  cases double with
  | true => exact takeToken_double
  | false => exact takeToken_single

theorem solid_quote (double : Bool) (rest : List Char) : Solid (quote double :: rest) := by
  cases double <;> exact ⟨by decide, by decide, by decide⟩

/-- A quoted scalar behind a space, up to the next line. -/
theorem arrives_quoted {double : Bool} {inner : List Char} {t : Text} {j : Nat} {rest : List Char}
    {p : Place} {tokens : List Token} {columns : List Nat} {allowed : Bool}
    (h : Quotes double inner t) (hp : innermost columns ≤ p.column) (hsolid : Solid rest) :
    (block ⟨' ' :: (quote double :: inner ++ (newLine j ++ rest)), p⟩ tokens columns
        allowed none).Arrives
      ⟨rest, p.after (' ' :: (quote double :: inner ++ newLine j))⟩ columns
      (.scalar false t :: tokens) := by
  have hcolumn : (p.next ' ').column = p.column + 1 := rfl
  have hplace : p.after (' ' :: (quote double :: inner ++ newLine j)) =
      ((p.next ' ').after (quote double :: inner)).after (newLine j) := by
    rw [Place.after_cons, Place.after_append]
  have hread := h (newLine j ++ rest) (p.next ' ') (by simp [newLine])
  have htake : (block ⟨quote double :: (inner ++ (newLine j ++ rest)), p.next ' '⟩ tokens columns
      allowed none).takeToken = _ := takeToken_quoted.trans (takeQuoted_block hread)
  rw [hplace]
  refine arrives_of_take (front_space (solid_quote double _) hp (by simp)) htake (by simp) ?_ ?_
    (skipTrivia_newLine hsolid false j _) rfl ?_
  · simp only [List.length_cons, List.length_append]
    omega
  · rw [hcolumn]
    omega
  · rw [Place.line_after_newLine]
    exact Nat.lt_succ_of_le (Place.line_le_after _ _)

/-! ## 6. Bytes -/

theorem readTagRest_binary (rest : List Char) (p : Place) :
    readTagRest ⟨Tag.binary.name ++ ' ' :: rest, p⟩ =
      .ok (Tag.binary.name, ⟨' ' :: rest, p.after Tag.binary.name⟩) := by
  have htext : readTagText [] (Tag.binary.name ++ ' ' :: rest) =
      .ok (Tag.binary.name, ' ' :: rest) := rfl
  have htaken : (Tag.binary.name ++ ' ' :: rest).take
      ((Tag.binary.name ++ ' ' :: rest).length - (' ' :: rest).length) = Tag.binary.name := by
    rw [List.length_append, Nat.add_sub_cancel, List.take_left]
  rw [readTagRest]
  simp only [htext, ok_bind, htaken]
  rfl

theorem readTag_binary (rest : List Char) (p : Place) :
    readTag ⟨Tag.binary.short ++ ' ' :: rest, p⟩ =
      .ok (binaryTag, ⟨' ' :: rest, p.after Tag.binary.short⟩) := by
  have hhandle : readHandle ⟨'!' :: '!' :: (Tag.binary.name ++ ' ' :: rest), p⟩ =
      .ok ("!!".toList, ⟨Tag.binary.name ++ ' ' :: rest, (p.next '!').next '!'⟩) := rfl
  have hword : endsWord ('!' :: (Tag.binary.name ++ ' ' :: rest)) = false := rfl
  have hhas : hasHandle ('!' :: (Tag.binary.name ++ ' ' :: rest)) = true := rfl
  rw [Tag.short, List.cons_append, List.cons_append]
  unfold readTag readTagForm readShortTag readTagHandle
  simp only [List.drop_succ_cons, List.drop_zero, hword, hhas, hhandle, readTagRest_binary, ok_bind,
    if_true]
  rfl

theorem isInline_of_mem_short : ∀ c ∈ Tag.binary.short, Place.IsInline c := by
  have h : (Tag.binary.short.all fun c => !isBreak c && c != '\uFEFF') = true := by decide
  intro c hc
  have hboth := Bool.and_eq_true_iff.mp (List.all_eq_true.mp h c hc)
  exact ⟨by simpa using hboth.1, bne_iff_ne.mp hboth.2⟩

/-- The candidate at the tag of bytes stays within reach up to their scalar. -/
theorem near_of_noted {rest : List Char} {p : Place} {tokens : List Token} {columns : List Nat}
    {allowed : Bool} : ∀ k ∈ noted ⟨rest, p⟩ tokens columns allowed,
    isStale (p.after Tag.binary.short) k = false ∧
      isStale ((p.after Tag.binary.short).next ' ') k = false := by
  intro k hk
  rw [noted] at hk
  split at hk
  · cases hk
    have hlength : Tag.binary.short.length = 8 := by decide
    rw [Place.after_of_inline isInline_of_mem_short, Place.next_of_inline Place.isInline_space]
    simp only [isStale, hlength, bne_self_eq_false, Bool.false_or, decide_eq_false_iff_not]
    omega
  · cases hk

/-- The tag of bytes brings reading to their scalar. -/
theorem leads_tag (body : List Char) {p : Place} (tokens : List Token) {columns : List Nat}
    (allowed : Bool) (hp : innermost columns ≤ p.column) (hsolid : Solid body) :
    ∃ s' k, (block ⟨' ' :: (Tag.binary.short ++ ' ' :: body), p⟩ tokens columns allowed
        none).Leads s' ∧
      s'.front = .ok (block ⟨body, p.after (' ' :: (Tag.binary.short ++ [' ']))⟩
        (.tag binaryTag :: tokens) columns false k) ∧
      ∀ c' : Cursor, p.line < c'.place.line →
        ∀ x ∈ k, x.required = false ∧ x.place.line ≠ c'.place.line := by
  have hplace : p.after (' ' :: (Tag.binary.short ++ [' '])) =
      (((p.next ' ').after Tag.binary.short).next ' ') := by
    rw [Place.after_cons, Place.after_append, Place.after_cons, Place.after_nil]
  have hfirst : Solid (Tag.binary.short ++ ' ' :: body) := ⟨by decide, by decide, by decide⟩
  have hcolumn : innermost columns ≤ (((p.next ' ').after Tag.binary.short).column : Int) := by
    rw [Place.after_of_inline isInline_of_mem_short, Place.next_of_inline Place.isInline_space]
    simp only
    omega
  have htake : (block ⟨Tag.binary.short ++ ' ' :: body, p.next ' '⟩ tokens columns allowed
      none).takeToken = _ := takeToken_tag.trans (takeTag_block (readTag_binary body (p.next ' ')))
  refine ⟨_, noted ⟨Tag.binary.short ++ ' ' :: body, p.next ' '⟩ tokens columns allowed,
    Leads.of_take (front_space hfirst hp (by simp)) htake (by simp) ?_, ?_, ?_⟩
  · have hlength : 0 < Tag.binary.short.length := by decide
    simpa using hlength
  · rw [hplace]
    exact front_space hsolid hcolumn near_of_noted
  · intro c' hline
    refine given_up_of_noted ?_ hline
    simp only [Place.next_of_inline Place.isInline_space]
    omega

/-- Bytes behind a space, up to the next line. -/
theorem arrives_bytes {bs : List UInt8} {n j : Nat} {rest : List Char} {p : Place}
    {tokens : List Token} {columns : List Nat} {allowed : Bool}
    (hn : (max (innermost columns + 1) 1).toNat ≤ n) (hp : innermost columns ≤ p.column)
    (hj : j < n) (hsolid : Solid rest) :
    (block ⟨' ' :: (Tag.binary.short ++ ' ' ::
        (if bs.isEmpty then ['"', '"'] else '|' :: indented n (byteLines bs)) ++
          (newLine j ++ rest)), p⟩ tokens columns allowed none).Arrives
      ⟨rest, p.after (' ' :: (Tag.binary.short ++ ' ' ::
        (if bs.isEmpty then ['"', '"'] else '|' :: indented n (byteLines bs)) ++ newLine j))⟩ columns
      (.scalar false (Text.ofChars (Base64.encode bs)) :: .tag binaryTag :: tokens) := by
  have hafter : ∀ body : List Char, p.after (' ' :: (Tag.binary.short ++ ' ' :: body)) =
      (p.after (' ' :: (Tag.binary.short ++ [' ']))).after body := by
    intro body
    rw [← Place.after_append]
    simp
  rw [List.append_assoc, List.cons_append, List.append_assoc, List.cons_append, hafter]
  cases bs with
  | nil =>
    obtain ⟨s', k, hleads, hfront, hgiven⟩ := leads_tag ('"' :: ('"' :: (newLine j ++ rest)))
      tokens allowed hp (solid_quote true _)
    have hread : readQuoted true ⟨'"' :: ('"' :: (newLine j ++ rest)),
        p.after (' ' :: (Tag.binary.short ++ [' ']))⟩ =
        .ok ([], ⟨newLine j ++ rest, (p.after (' ' :: (Tag.binary.short ++ [' ']))).after ['"', '"']⟩)
      := rfl
    have htake : (block ⟨'"' :: ('"' :: (newLine j ++ rest)),
        p.after (' ' :: (Tag.binary.short ++ [' ']))⟩ (.tag binaryTag :: tokens) columns false
        k).takeToken = _ := takeToken_double.trans (takeQuoted_block_candidate hread)
    have hline : p.line < (((p.after (' ' :: (Tag.binary.short ++ [' ']))).after ['"', '"']).after
        (newLine j)).line := by
      rw [Place.line_after_newLine]
      exact Nat.lt_succ_of_le (Nat.le_trans (Place.line_le_after _ _) (Place.line_le_after _ _))
    have hlength : (newLine j ++ rest).length < ('"' :: '"' :: (newLine j ++ rest)).length :=
      Nat.lt_succ_of_lt (Nat.lt_succ_self _)
    refine hleads.arrives ⟨_, Leads.of_take hfront htake (by simp) hlength, ?_⟩
    rw [front_block (skipTrivia_newLine hsolid false j _) (hgiven ⟨rest, _⟩ hline),
      List.isEmpty_nil, if_pos rfl, Place.after_append]
    rfl
  | cons b bs =>
    obtain ⟨s', k, hleads, hfront, hgiven⟩ := leads_tag
      ('|' :: (indented n (byteLines (b :: bs)) ++ (newLine j ++ rest))) tokens allowed hp
      ⟨by decide, by decide, by decide⟩
    have hread := readBlock_lines (byteLines_ne_nil (List.cons_ne_nil b bs))
      (fun l hl => isLine_of_mem_byteLines hl) hn hj hsolid
        (p.after (' ' :: (Tag.binary.short ++ [' '])))
    have hoptional : ∀ x ∈ k, x.required = false := fun x hx =>
      (hgiven ⟨[], ⟨0, p.line + 1, 0⟩⟩ (Nat.lt_succ_self _) x hx).1
    have htake : (block ⟨'|' :: (indented n (byteLines (b :: bs)) ++ (newLine j ++ rest)),
        p.after (' ' :: (Tag.binary.short ++ [' ']))⟩ (.tag binaryTag :: tokens) columns false
        k).takeToken = _ := takeToken_block.trans (takeBlock_block hoptional hread)
    refine hleads.arrives ⟨_, Leads.of_take hfront htake (by simp) ?_, ?_⟩
    · simp
      omega
    · rw [front_block_of_solid hsolid (by simp), ← encode_eq]
      rfl

/-! ## 7. All atoms -/

theorem atomTokens_of_form (folds : Bool) (n : Nat) {a : Atom} (hstr : ∀ t, a ≠ .str t)
    (hbytes : ∀ bs, a ≠ .bytes bs) :
    atomTokens folds n a = [.scalar true (Text.ofChars (plainForm a))] := by
  unfold atomTokens
  split
  · exact absurd rfl (hstr _)
  · exact absurd rfl (hbytes _)
  · rfl

theorem isOpenEnded_of_form {anchor : Option Nat} {a : Atom} (hstr : ∀ t, a ≠ .str t)
    (hbytes : ∀ bs, a ≠ .bytes bs) : isOpenEnded (.atom anchor a) = true := by
  unfold isOpenEnded
  split
  · rename_i heq
    exact absurd (Tree.atom.inj heq).2 (hbytes _)
  · rename_i heq
    exact absurd (Tree.atom.inj heq).2 (hstr _)
  · rfl
  · rename_i h
    exact absurd rfl (h _ _)

/-- A proper atom other than a string and bytes has a form. -/
theorem hasForm_of_proper {a : Atom} (ha : a.Proper) (hstr : ∀ t, a ≠ .str t)
    (hbytes : ∀ bs, a ≠ .bytes bs) : HasForm a := by
  cases a with
  | float d => exact ha
  | str t => exact hstr t rfl
  | bytes bs => exact hbytes bs rfl
  | _ => trivial

/-- **An atom behind a mark is read as its tokens**, up to the next line. That must not be further
    in than the collection around it; behind a plain scalar at the root it is a marker. -/
theorem arrives_atom {a : Atom} (ha : a.Proper) {folds : Bool} {n column j : Nat}
    {rest : List Char} {p : Place} {tokens : List Token} {columns : List Nat} {allowed : Bool}
    (hn : (max (innermost columns + 1) 1).toNat ≤ n) (hcolumn : n ≤ column + 1)
    (hp : innermost columns ≤ p.column) (hj : j < n)
    (hend : (j : Int) ≤ innermost columns ∨
      (j = 0 ∧ (isOpenEnded (.atom none a) = true → startsMarker rest = true)))
    (hsolid : Solid rest) :
    (block ⟨' ' :: (scalarText folds n column a ++ (newLine j ++ rest)), p⟩ tokens columns allowed
        none).Arrives
      ⟨rest, p.after (' ' :: (scalarText folds n column a ++ newLine j))⟩ columns
      ((atomTokens folds n a).reverse ++ tokens) := by
  have hn' : 0 < n := by omega
  have hin : innermost columns < n := by omega
  have hplain : ∀ cs : List Char, fitsPlain cs = true → isOpenEnded (.atom none a) = true →
      (block ⟨' ' :: ((plainFrom folds n 0 column cs).1 ++ (newLine j ++ rest)), p⟩ tokens columns
          allowed none).Arrives
        ⟨rest, p.after (' ' :: ((plainFrom folds n 0 column cs).1 ++ newLine j))⟩ columns
        (.scalar true (Text.ofChars cs) :: tokens) := fun cs hcs hopen =>
    arrives_plain hcs hn' hin hp (hend.imp_right fun h => ⟨h.1, h.2 hopen⟩) hsolid
  by_cases hstr : ∃ t, a = .str t
  · obtain ⟨t, rfl⟩ := hstr
    rcases ofText_cases t with ⟨cs, ht, hstyle, hcs⟩ | ⟨cs, ht, hstyle, hcs⟩ | hstyle
    · have hopen : isOpenEnded (.atom none (.str t)) = true := by
        simp only [isOpenEnded, hstyle]
      have hfits : fitsPlain cs = true := (Bool.and_eq_true_iff.mp hcs).1
      simp only [scalarText, atomTokens, hstyle]
      rw [ht]
      exact hplain cs hfits hopen
    · have hquotes := quotes_single folds (column + 1) hn' hcs (ht ▸ ha)
      simp only [scalarText, atomTokens, hstyle]
      rw [ht]
      exact arrives_quoted hquotes hp hsolid
    · have hquotes := quotes_double folds hn' hcolumn t
      simp only [scalarText, atomTokens, hstyle]
      exact arrives_quoted hquotes hp hsolid
  · by_cases hbytes : ∃ bs, a = .bytes bs
    · obtain ⟨bs, rfl⟩ := hbytes
      exact arrives_bytes hn hp hj hsolid
    · rw [not_exists] at hstr hbytes
      rw [scalarText_of_form _ _ _ hstr hbytes, atomTokens_of_form _ _ hstr hbytes]
      exact hplain _ (fitsPlain_plainForm (hasForm_of_proper ha hstr hbytes))
        (isOpenEnded_of_form hstr hbytes)

end Conform.Markup
