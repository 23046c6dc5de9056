import Conform.Proofs.Markup.Shown

/-!
# Short keys

A key in front of its colon is not folded, so its text does not depend on where it stands
(`atomPiece_key`). It is on one line and short enough for the reader to remember where it
started, and the colon makes it a key (`leads_key`). That is why a key has to be brief: between
double quotes a code point can take ten characters, and the reader looks back over 1024.
-/

namespace Conform.Markup

open Style Layout

/-! ## 1. The text of a key -/

/-- A code point between double quotes. -/
def doubleOwn (p : CodePoint) : List Char :=
  if standsInDouble p then p.char?.toList else escape p

/-- The text of a key in front of its colon. -/
def keyText : Atom → List Char
  | .str t =>
    match Style.ofText t with
    | .plain cs => cs
    | .single cs => '\'' :: (cs.flatMap singleOwn ++ ['\''])
    | .double t => '"' :: (t.flatMap doubleOwn ++ ['"'])
  | a => plainForm a

/-- What a string must be for a key in front of its colon: on one line and not long. -/
theorem of_isShortAtom_str {t : Text} (h : isShortAtom (.str t) = true) :
    t ≠ [] ∧ hasBreak t = false := by
  simp only [isShortAtom, atomKeyLength?] at h
  split at h
  · cases h
  · rename_i hne
    rw [Bool.or_eq_true, not_or, Bool.not_eq_true, Bool.not_eq_true] at hne
    exact ⟨List.isEmpty_eq_false_iff.mp hne.1, hne.2⟩

theorem ne_bytes_of_isShortAtom {a : Atom} (h : isShortAtom a = true) : ∀ bs, a ≠ .bytes bs := by
  rintro bs rfl
  cases h

theorem keyText_of_form {a : Atom} (hstr : ∀ t, a ≠ .str t) : keyText a = plainForm a := by
  unfold keyText
  split
  · exact absurd rfl (hstr _)
  · rfl

theorem isShown_of_hasBreak {cs : List Char} (h : hasBreak (Text.ofChars cs) = false)
    (hcs : ∀ c ∈ cs, isShown c = true ∨ isOwnBreak c = true) : ∀ c ∈ cs, isShown c = true := by
  intro c hc
  refine (hcs c hc).resolve_right fun hbreak => ?_
  have hmem : CodePoint.char c ∈ Text.ofChars cs := List.mem_map_of_mem hc
  have hno := List.any_eq_false.mp h _ hmem
  simp [CodePoint.char?, isAnyBreak_of_isOwnBreak hbreak] at hno

/-! ## 2. Scalars that are not folded -/

theorem plainFrom_unfolded (n : Nat) : ∀ (cs : List Char) (spaces column : Nat),
    plainFrom false n spaces column cs =
      (List.replicate spaces ' ' ++ cs, column + spaces + cs.length)
  | [], spaces, column => by simp [plainFrom]
  | c :: cs, spaces, column => by
      rw [plainFrom]
      split
      · rename_i hspace
        rw [plainFrom_unfolded n cs, hspace, List.replicate_succ', List.append_assoc,
          List.singleton_append, List.length_cons, ← Nat.add_assoc, Nat.add_right_comm,
          ← Nat.add_assoc]
      · simp only [Bool.and_false, Bool.false_eq_true, if_false, plainFrom_unfolded n cs,
          List.replicate_zero, List.nil_append, List.length_cons]
        rw [Nat.add_zero, Nat.add_assoc _ 1, Nat.add_comm 1]

theorem singleFrom_unfolded (n : Nat) : ∀ {cs : List Char} (spaces column : Nat) (inner : Bool),
    (∀ c ∈ cs, isShown c = true) →
    singleFrom false n inner (List.replicate spaces ' ') column cs =
      (List.replicate spaces ' ' ++ cs.flatMap singleOwn,
        column + spaces + (cs.flatMap singleOwn).length)
  | [], spaces, column, inner => fun _ => by
      have hnone := any_isAnyBreak_of_spaces fun c (hc : c ∈ List.replicate spaces ' ') =>
        (List.mem_replicate.mp hc).2
      simp [singleFrom, hnone]
  | c :: cs, spaces, column, inner => fun h => by
      obtain ⟨hc, hcs⟩ := List.forall_mem_cons.mp h
      have hnone := any_isAnyBreak_of_spaces fun c (hc : c ∈ List.replicate spaces ' ') =>
        (List.mem_replicate.mp hc).2
      by_cases hspace : c = ' '
      · have hown : singleOwn ' ' = [' '] := rfl
        rw [singleFrom_gap (by simp [hspace, hnone]), hspace, ← List.replicate_succ,
          singleFrom_unfolded n (spaces + 1) column inner hcs, List.replicate_succ',
          List.flatMap_cons, hown, List.append_assoc, List.length_append, List.length_singleton,
          Nat.add_assoc, Nat.add_assoc, Nat.add_assoc]
      · have hbreak := isAnyBreak_of_isShown hc
        have hmore : ∀ column', singleFrom false n true [] column' cs =
            (cs.flatMap singleOwn, column' + (cs.flatMap singleOwn).length) :=
          fun column' => singleFrom_unfolded n 0 column' true hcs
        rw [singleFrom]
        simp only [hspace, hbreak, hnone, decide_false, Bool.false_and, Bool.and_false,
          Bool.false_eq_true, if_false, Bool.or_false, hmore]
        rw [List.flatMap_cons, List.append_assoc, List.length_append, List.length_replicate,
          ← singleOwn, Nat.add_assoc]

theorem doubleFrom_unfolded (n : Nat) : ∀ (t : Text) (first atEscape : Bool) (column : Nat),
    doubleFrom false n first atEscape column t =
      (t.flatMap doubleOwn, column + (t.flatMap doubleOwn).length)
  | [], _, _, _ => rfl
  | p :: ps, first, atEscape, column => by
      rw [doubleFrom, List.flatMap_cons, doubleOwn]
      by_cases hp : standsInDouble p = true
      · cases p with
        | surrogate s => cases hp
        | char c =>
          simp only [hp, if_true, Bool.and_false, Bool.false_eq_true, if_false, List.nil_append,
            doubleFrom_unfolded n ps, CodePoint.char?, Option.toList_some, List.length_append,
            List.length_singleton, Nat.add_assoc]
      · simp only [hp, if_false, Bool.and_false, Bool.false_eq_true, List.append_nil,
          doubleFrom_unfolded n ps, List.length_append, Nat.add_assoc]

/-- **The text of a key does not depend on where it stands.** -/
theorem atomPiece_key {a : Atom} (ha : a.Proper) (hshort : isShortAtom a = true)
    (indent : Option Nat) {p : Pen} (hp : p.spaced = true) :
    atomPiece .key indent a p =
      (keyText a, { column := p.column + (keyText a).length, spaced := false, fresh := false }) := by
  by_cases hstr : ∃ t, a = .str t
  · obtain ⟨t, rfl⟩ := hstr
    rw [atomPiece, keyText]
    rcases ofText_cases t with ⟨cs, -, hstyle, -⟩ | ⟨cs, ht, hstyle, hcs⟩ | hstyle
    · simp [hstyle, plainPiece, hp, plainFrom_unfolded]
    · have hchars := (fitsSingle_chars hcs (ht ▸ ha)).1
      have hshown := isShown_of_hasBreak (ht ▸ (of_isShortAtom_str hshort).2) hchars
      have hinner := fun column => singleFrom_unfolded (scalarIndent indent) 0 column false hshown
      simp only [List.replicate_zero, List.nil_append] at hinner
      simp [hstyle, singlePiece, Piece.andThen_apply, Piece.word_of_spaced hp, Piece.indicator,
        hinner]
      omega
    · simp [hstyle, doublePiece, Piece.andThen_apply, Piece.word_of_spaced hp, Piece.indicator,
        doubleFrom_unfolded]
      omega
  · rw [not_exists] at hstr
    rw [atomPiece_of_form .key indent hstr (ne_bytes_of_isShortAtom hshort), keyText_of_form hstr]
    simp [plainPiece, hp, plainFrom_unfolded]

/-! ## 3. The line of a key -/

theorem isShown_singleOwn {c : Char} (h : isShown c = true) :
    (∀ d ∈ singleOwn c, isShown d = true) ∧ (singleOwn c).length ≤ 10 := by
  rw [singleOwn]
  split
  · exact ⟨List.all_eq_true.mp (by decide), by simp⟩
  · exact ⟨List.forall_mem_singleton.mpr h, by simp⟩

theorem isShown_doubleOwn (p : CodePoint) :
    (∀ d ∈ doubleOwn p, isShown d = true) ∧ (doubleOwn p).length ≤ 10 := by
  rw [doubleOwn]
  split
  · rename_i hp
    cases p with
    | surrogate s => cases hp
    | char c => exact ⟨List.forall_mem_singleton.mpr (isShown_of_standsInDouble hp), by simp [CodePoint.char?]⟩
  · exact escape_shown p

/-- Between quotes every code point takes ten characters at most. -/
theorem quoted_shown {α : Type} {q : Char} (own : α → List Char) (hq : isShown q = true) :
    ∀ {xs : List α}, (∀ x ∈ xs, (∀ d ∈ own x, isShown d = true) ∧ (own x).length ≤ 10) →
    (∀ d ∈ q :: (xs.flatMap own ++ [q]), isShown d = true) ∧
      (q :: (xs.flatMap own ++ [q])).length ≤ 10 * xs.length + 2
  | [], _ => ⟨by simpa using hq, by simp⟩
  | x :: xs, h => by
      obtain ⟨⟨hshown, hlength⟩, hxs⟩ := List.forall_mem_cons.mp h
      obtain ⟨hshowns, hlengths⟩ := quoted_shown own hq hxs
      refine ⟨?_, ?_⟩
      · rw [List.flatMap_cons, List.append_assoc]
        refine List.forall_mem_cons.mpr ⟨hq, List.forall_mem_append.mpr ⟨hshown, ?_⟩⟩
        exact (List.forall_mem_cons.mp hshowns).2
      · simp only [List.flatMap_cons, List.length_cons, List.length_append, List.length_nil] at hlengths ⊢
        omega

/-- **A key stands on one line**, and its end is not too far from its start. -/
theorem keyText_shown {a : Atom} (ha : a.Proper) (hbrief : a.Brief) (hshort : isShortAtom a = true) :
    (∀ c ∈ keyText a, isShown c = true) ∧ (keyText a).length ≤ 1002 := by
  by_cases hstr : ∃ t, a = .str t
  · obtain ⟨t, rfl⟩ := hstr
    have hlength : t.length ≤ 100 := hbrief
    rw [keyText]
    rcases ofText_cases t with ⟨cs, ht, hstyle, hcs⟩ | ⟨cs, ht, hstyle, hcs⟩ | hstyle
    · rw [ht, Text.ofChars, List.length_map] at hlength
      simp only [hstyle]
      exact ⟨(fitsPlain_iff.mp (Bool.and_eq_true_iff.mp hcs).1).1, by omega⟩
    · have hchars := (fitsSingle_chars hcs (ht ▸ ha)).1
      have hshown := isShown_of_hasBreak (ht ▸ (of_isShortAtom_str hshort).2) hchars
      have hmark : isShown '\'' = true := by decide
      obtain ⟨hall, hsum⟩ := quoted_shown singleOwn hmark fun c hc =>
        isShown_singleOwn (hshown c hc)
      rw [ht, Text.ofChars, List.length_map] at hlength
      simp only [hstyle]
      exact ⟨hall, by omega⟩
    · have hmark : isShown '"' = true := by decide
      obtain ⟨hall, hsum⟩ := quoted_shown doubleOwn hmark fun p (_ : p ∈ t) =>
        isShown_doubleOwn p
      simp only [hstyle]
      exact ⟨hall, by omega⟩
  · rw [not_exists] at hstr
    have hbytes := ne_bytes_of_isShortAtom hshort
    have hlength : (plainForm a).length < 128 := by
      unfold isShortAtom atomKeyLength? at hshort
      split at hshort
      · exact absurd rfl (hstr _)
      · exact absurd rfl (hbytes _)
      · simp only [Option.any_some, decide_eq_true_eq] at hshort
        omega
    rw [keyText_of_form hstr]
    exact ⟨(fitsPlain_iff.mp (fitsPlain_plainForm (hasForm_of_proper ha hstr hbytes))).1, by omega⟩

/-! ## 4. Reading a key -/

/-- The token of a key. -/
def keyToken : Atom → Token
  | .str t =>
    match Style.ofText t with
    | .plain _ => .scalar true t
    | _ => .scalar false t
  | a => .scalar true (Text.ofChars (plainForm a))

theorem atomTokens_unfolded {a : Atom} (hshort : isShortAtom a = true) (n : Nat) :
    atomTokens false n a = [keyToken a] := by
  by_cases hstr : ∃ t, a = .str t
  · obtain ⟨t, rfl⟩ := hstr
    rw [atomTokens, keyToken]
    rcases ofText_cases t with ⟨cs, -, hstyle, -⟩ | ⟨cs, -, hstyle, -⟩ | hstyle
    · simp only [hstyle]
    · simp only [hstyle]
    · simp only [hstyle]
      rfl
  · rw [not_exists] at hstr
    have hbytes := ne_bytes_of_isShortAtom hshort
    rw [atomTokens_of_form _ _ hstr hbytes]
    unfold keyToken
    split
    · exact absurd rfl (hstr _)
    · rfl

theorem solid_keyText {a : Atom} (ha : a.Proper) (hshort : isShortAtom a = true)
    (rest : List Char) : Solid (keyText a ++ rest) := by
  have hplain : ∀ {cs : List Char}, fitsPlain cs = true → Solid (cs ++ rest) := by
    intro cs hcs
    cases cs with
    | nil => cases hcs
    | cons c cs =>
      obtain ⟨hshown, -, hspace, hhash, -⟩ := first_of_fitsPlain hcs
      exact ⟨hspace, hhash, isBreak_of_isShown hshown⟩
  by_cases hstr : ∃ t, a = .str t
  · obtain ⟨t, rfl⟩ := hstr
    rw [keyText]
    rcases ofText_cases t with ⟨cs, -, hstyle, hcs⟩ | ⟨cs, -, hstyle, -⟩ | hstyle
    · simp only [hstyle]
      exact hplain (Bool.and_eq_true_iff.mp hcs).1
    · simp only [hstyle]
      exact solid_quote false _
    · simp only [hstyle]
      exact solid_quote true _
  · rw [not_exists] at hstr
    rw [keyText_of_form hstr]
    exact hplain (fitsPlain_plainForm (hasForm_of_proper ha hstr (ne_bytes_of_isShortAtom hshort)))

theorem keyText_ne_nil {a : Atom} (ha : a.Proper) (hshort : isShortAtom a = true) :
    keyText a ≠ [] := by
  have hplain : ∀ {cs : List Char}, fitsPlain cs = true → cs ≠ [] := by
    rintro cs hcs rfl
    cases hcs
  by_cases hstr : ∃ t, a = .str t
  · obtain ⟨t, rfl⟩ := hstr
    rw [keyText]
    rcases ofText_cases t with ⟨cs, -, hstyle, hcs⟩ | ⟨cs, -, hstyle, -⟩ | hstyle
    · simp only [hstyle]
      exact hplain (Bool.and_eq_true_iff.mp hcs).1
    · simp only [hstyle]
      exact List.cons_ne_nil _ _
    · simp only [hstyle]
      exact List.cons_ne_nil _ _
  · rw [not_exists] at hstr
    rw [keyText_of_form hstr]
    exact hplain (fitsPlain_plainForm (hasForm_of_proper ha hstr (ne_bytes_of_isShortAtom hshort)))

theorem keyToken_ne_end (a : Atom) : keyToken a ≠ .streamEnd := by
  unfold keyToken
  split
  · split <;> simp
  · simp

section Reading

variable {k : Atom} {rest : List Char} {p : Place} {tokens : List Token} {columns : List Nat}

/-- A key is taken up to its colon. -/
theorem takeToken_keyText (hk : k.Proper) (hshort : isShortAtom k = true) (hapart : Apart rest)
    (hp : innermost columns ≤ p.column) :
    (block ⟨keyText k ++ ':' :: rest, p⟩ tokens columns true none).takeToken =
      .ok (block ⟨':' :: rest, p.after (keyText k)⟩ (keyToken k :: tokens) columns false
        (noted ⟨keyText k ++ ':' :: rest, p⟩ tokens columns true)) := by
  have hplain : ∀ {cs : List Char}, fitsPlain cs = true →
      (block ⟨cs ++ ':' :: rest, p⟩ tokens columns true none).takeToken =
        .ok (block ⟨':' :: rest, p.after cs⟩ (.scalar true (Text.ofChars cs) :: tokens) columns
          false (noted ⟨cs ++ ':' :: rest, p⟩ tokens columns true)) := by
    intro cs hcs
    obtain ⟨m, hm⟩ : ∃ m : Nat, innermost columns + 1 ≤ m ∧ 0 < m :=
      ⟨(innermost columns + 1).toNat + 1, by omega, by omega⟩
    have hwrite : (plainFrom false m 0 0 cs).1 = cs := by
      rw [plainFrom_unfolded]
      rfl
    have hread : readPlain false (innermost columns + 1) ⟨cs ++ ':' :: rest, p⟩ =
        ⟨cs, false, ⟨':' :: rest, p.after cs⟩⟩ := by
      have hstep := @readPlain_plainFrom false m 0 _ _ (':' :: rest) p hm.2 hm.1 (by omega) hcs
      rw [hwrite, readPlainFrom_colon hapart.endsWord, List.reverse_reverse] at hstep
      exact hstep
    have htake := @takeToken_plainText false m 0 cs (':' :: rest) p tokens columns true none hcs
    rw [hwrite] at htake
    have hmarker : startsMarker (cs ++ ':' :: rest) = false := by
      cases cs with
      | nil => cases hcs
      | cons c cs => exact (first_of_fitsPlain hcs).2.2.2.2.2 rest
    rw [htake fun _ => hmarker, takePlain_block hread]
  have hquoted : ∀ {double : Bool} {inner : List Char} {t : Text}, Quotes double inner t →
      (block ⟨quote double :: inner ++ ':' :: rest, p⟩ tokens columns true none).takeToken =
        .ok (block ⟨':' :: rest, p.after (quote double :: inner)⟩ (.scalar false t :: tokens) columns
          false (noted ⟨quote double :: inner ++ ':' :: rest, p⟩ tokens columns true)) := by
    intro double inner t h
    have hread := h (':' :: rest) p (by simp)
    rw [List.cons_append, takeToken_quoted, takeQuoted_block hread]
  by_cases hstr : ∃ t, k = .str t
  · obtain ⟨t, rfl⟩ := hstr
    rw [keyText, keyToken]
    rcases ofText_cases t with ⟨cs, ht, hstyle, hcs⟩ | ⟨cs, ht, hstyle, hcs⟩ | hstyle
    · simp only [hstyle]
      rw [ht]
      exact hplain (Bool.and_eq_true_iff.mp hcs).1
    · have hchars := (fitsSingle_chars hcs (ht ▸ hk)).1
      have hshown := isShown_of_hasBreak (ht ▸ (of_isShortAtom_str hshort).2) hchars
      have hquotes := quotes_single false 0 Nat.one_pos hcs (ht ▸ hk)
      have hinner := singleFrom_unfolded 1 0 0 false hshown
      rw [List.replicate_zero, List.nil_append] at hinner
      rw [hinner] at hquotes
      simp only [hstyle]
      rw [ht]
      exact hquoted hquotes
    · have hquotes := quotes_double false Nat.one_pos (Nat.le_refl 1) t
      rw [doubleFrom_unfolded] at hquotes
      simp only [hstyle]
      exact hquoted hquotes
  · rw [not_exists] at hstr
    have hbytes := ne_bytes_of_isShortAtom hshort
    have htoken : keyToken k = .scalar true (Text.ofChars (plainForm k)) := by
      unfold keyToken
      split
      · exact absurd rfl (hstr _)
      · rfl
    rw [keyText_of_form hstr, htoken]
    exact hplain (fitsPlain_plainForm (hasForm_of_proper hk hstr hbytes))

/-- **A short key leads behind its colon.** Where its mapping goes on, nothing is opened. -/
theorem leads_key {s : Layout} (hk : k.Proper) (hbrief : k.Brief) (hshort : isShortAtom k = true)
    (hapart : Apart rest) (hp : innermost columns ≤ p.column)
    (hfront : s.front = .ok (block ⟨keyText k ++ ':' :: rest, p⟩ tokens columns true none)) :
    s.Leads (block ⟨rest, p.after (keyText k ++ [':'])⟩
      (.value :: keyToken k :: .key :: opened .blockMappingStart p.column columns tokens)
      (widened p.column columns) false none) := by
  obtain ⟨hshown, hlength⟩ := keyText_shown hk hbrief hshort
  have hplace := Place.after_of_inline (fun c hc => isInline_of_isShown (hshown c hc)) p
  have hsolid : Solid (':' :: rest) := ⟨by decide, by decide, by decide⟩
  have hnear : ∀ x ∈ noted ⟨keyText k ++ ':' :: rest, p⟩ tokens columns true,
      isStale (p.after (keyText k)) x = false := by
    intro x hx
    cases hx
    rw [hplace]
    simp only [isStale, bne_self_eq_false, Bool.false_or, decide_eq_false_iff_not]
    omega
  have hcolumn : innermost columns ≤ ((p.after (keyText k)).column : Int) := by
    rw [hplace]
    simp only
    omega
  have htake := @takeValue_block_candidate ⟨':' :: rest, p.after (keyText k)⟩ tokens columns false
    (keyToken k) ⟨tokens.length, innermost columns = p.column, p⟩ rfl
  have hplaces : p.after (keyText k ++ [':']) = (p.after (keyText k)).next ':' := by
    rw [Place.after_append]
    rfl
  rw [hplaces]
  refine (Leads.of_take hfront (takeToken_keyText hk hshort hapart hp) ?_ ?_).trans
    (Leads.of_take (front_block_of_solid hsolid hnear) ?_ ?_ ?_)
  · simpa using keyToken_ne_end k
  · simpa using List.length_pos_iff.mpr (keyText_ne_nil hk hshort)
  · rw [closed_of_le hcolumn, kept_of_le hcolumn, takeToken_value hapart]
    exact htake
  · simp
  · simp

end Reading

end Conform.Markup
