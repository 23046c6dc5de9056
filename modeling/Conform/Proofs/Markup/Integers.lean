import Conform.Proofs.Conformance
import Conform.Proofs.Markup.Denoted
import Conform.Proofs.Markup.Lone
import Conform.Proofs.Markup.Looks
import Conform.Proofs.Number.Positional
import Conform.Proofs.TextLines

/-!
# Integers and the numbers that they denote

A plain scalar that matches the pattern of integers denotes a number, which is in base two, eight,
ten, sixteen or sixty, and underscores do not count. This file says which number that is (`denoted`)
and which integers denote none (`Unreadable`), and that the library reads them so
(`intOf_of_magnitude`). Nothing else that stands on a line is read as an integer.
-/

namespace Conform.Markup.Dialect

open Numeral Pattern

/-! ## 1. What an integer denotes -/

/-- The number that an integer without sign and underscores denotes: in base two behind `0b`, in
    base sixteen behind `0x`, in base eight behind another zero, else in base sixty, in groups of
    decimal digits. A decimal number is a single group. -/
def magnitude : List Char → Nat
  | '0' :: 'b' :: ds => place 2 ds
  | '0' :: 'x' :: ds => place 16 ds
  | '0' :: ds => place 8 ds
  | ds => Nat.ofDigits 60 ((ds.splitOn ':').reverse.map (place 10))

/-- An integer without its sign and its underscores. -/
def bare (w : List Char) : List Char :=
  (unsigned w).filter (· != '_')

/-- The number that an integer denotes. -/
def denoted (w : List Char) : Int :=
  if w.head? = some '-' then -magnitude (bare w) else magnitude (bare w)

/-- Integers that denote no number: those with no digit behind the mark of their base, and those
    with more than 4300 digits in a decimal group. -/
def Unreadable (w : List Char) : Prop :=
  bare w = "0b".toList ∨ bare w = "0x".toList ∨
    (bare w).head? ≠ some '0' ∧ ∃ ds ∈ (bare w).splitOn ':', 4300 < ds.length

instance : DecidablePred Unreadable := fun w =>
  inferInstanceAs (Decidable (_ ∨ _ ∨ _ ∧ ∃ ds ∈ (bare w).splitOn ':', 4300 < ds.length))

/-! ## 2. Digits without underscores -/

theorem dense_cons {c : Char} (h : c ≠ '_') (cs : List Char) :
    Scalar.dense (c :: cs) = c :: Scalar.dense cs :=
  List.filter_cons_of_pos (bne_iff_ne.mpr h)

theorem digits_dense {base : Nat} {cs ds : List Char} (h : ∀ d ∈ ds, d ∈ cs)
    (hcs : ∀ c ∈ cs, c ≠ '_' → c ∈ hexChars ∧ digitValue c < base) :
    DigitsOf base (Scalar.dense ds) := by
  intro c hc
  obtain ⟨hmem, hne⟩ := List.mem_filter.mp hc
  exact hcs c (h c hmem) (bne_iff_ne.mp hne)

theorem digits_of_isDigit {c : Char} (h : isDigit c = true) : DigitsOf 10 [c] := by
  intro d hd
  rw [List.mem_singleton.mp hd]
  exact forall_isDigit (P := fun c => c ∈ hexChars ∧ digitValue c < 10) (by decide) h

theorem Groups.dense {gs : List Char} (h : Groups gs) : Scalar.dense gs = gs := by
  have hdigit : ∀ {c}, isDigit c = true → (c != '_') = true := fun {c} hc =>
    forall_isDigit (P := fun c => (c != '_') = true) (by decide) hc
  have hlead : ∀ t ∈ "012345".toList, (t != '_') = true := forall_mem_of_all (by decide)
  refine List.filter_eq_self.mpr ?_
  induction h with
  | nil => simp
  | one hd _ ih =>
    simp only [List.forall_mem_cons]
    exact ⟨by decide, hdigit hd, ih⟩
  | two ht hd _ ih =>
    simp only [List.forall_mem_cons]
    exact ⟨by decide, hlead _ ht, hdigit hd, ih⟩

theorem not_mem_of_digits {ds : List Char} (h : DigitsOf 10 ds) : ':' ∉ ds := fun hmem =>
  absurd (h ':' hmem).1 (by decide)

/-- The groups of a number in base sixty are runs of digits, of which the first one may be long. -/
theorem Groups.splitOn {gs : List Char} (h : Groups gs) : ∀ {front : List Char}, front ≠ [] →
    DigitsOf 10 front → ∀ ds ∈ (front ++ gs).splitOn ':', ds ≠ [] ∧ DigitsOf 10 ds := by
  have hbehind : ∀ {front rest : List Char}, front ≠ [] → DigitsOf 10 front →
      (∀ ds ∈ rest.splitOn ':', ds ≠ [] ∧ DigitsOf 10 ds) →
        ∀ ds ∈ (front ++ ':' :: rest).splitOn ':', ds ≠ [] ∧ DigitsOf 10 ds := by
    intro front rest hne hfront hrest ds hds
    rw [splitOn_append_of_not_mem (not_mem_of_digits hfront),
      List.splitOn_cons_eq_if_modifyHead, if_pos (beq_self_eq_true ':'), List.modifyHead_cons, List.append_nil] at hds
    rcases List.mem_cons.mp hds with rfl | hds
    · exact ⟨hne, hfront⟩
    · exact hrest ds hds
  induction h with
  | nil =>
    intro front hne hfront ds hds
    rw [splitOn_append_of_not_mem (not_mem_of_digits hfront), List.splitOn_nil,
      List.modifyHead_cons, List.append_nil, List.mem_singleton] at hds
    rw [hds]
    exact ⟨hne, hfront⟩
  | @one d rest hd _ ih =>
    intro front hne hfront
    exact hbehind hne hfront (@ih [d] (by simp) (digits_of_isDigit hd))
  | @two t d rest ht hd _ ih =>
    intro front hne hfront
    have hpair : DigitsOf 10 [t, d] := by
      have hlead : ∀ t ∈ "012345".toList, t ∈ hexChars ∧ digitValue t < 10 :=
        forall_mem_of_all (by decide)
      exact List.forall_mem_cons.mpr ⟨hlead t ht, digits_of_isDigit hd⟩
    exact hbehind hne hfront (@ih [t, d] (by simp) hpair)

/-! ## 3. Reading integers -/

/-- Underscores do not stand in front of a sign. -/
theorem splitSign_dense {w : List Char} (h : Magnitude (unsigned w)) :
    splitSign (Scalar.dense w) = (decide (w.head? = some '-'), bare w) := by
  rcases unsigned_cases w with ⟨hself, -⟩ | ⟨s, hs, hcons⟩
  · obtain ⟨c, rest, hu, hc⟩ := h.exists_cons
    have hne : c ≠ '-' ∧ c ≠ '+' ∧ c ≠ '_' :=
      forall_isDigit (P := fun c => c ≠ '-' ∧ c ≠ '+' ∧ c ≠ '_') (by decide) hc
    have hdense := dense_cons hne.2.2 rest
    have hbare : bare w = c :: Scalar.dense rest := by rw [bare, hu, ← hdense, Scalar.dense]
    rw [hself] at hu
    rw [hbare, hu, hdense, splitSign]
    · simp [hne.1]
    · rintro cs ⟨⟩
      exact hne.1 rfl
    · rintro cs ⟨⟩
      exact hne.2.1 rfl
  · have hs' : s = '-' ∨ s = '+' := by simpa using hs
    rw [hcons]
    rcases hs' with rfl | rfl <;> rfl

/-- No octal digit is the mark of a base. -/
theorem ne_mark_of_digits {ds : List Char} (h : DigitsOf 8 ds) {rest : List Char} :
    ds ≠ 'b' :: rest ∧ ds ≠ 'x' :: rest := by
  constructor
  · rintro rfl
    exact absurd (h 'b' List.mem_cons_self).2 (by decide)
  · rintro rfl
    exact absurd (h 'x' List.mem_cons_self).1 (by decide)

section Bodies

variable {w ds : List Char} {negative : Bool}

theorem intOf_binary (h : splitSign (Scalar.dense w) = (negative, '0' :: 'b' :: ds)) :
    Scalar.intOf (Text.ofChars w) = Scalar.signed negative (integer? 2 ds) := by
  rw [Scalar.intOf, Text.chars?_ofChars]
  simp only [h]

theorem intOf_hexadecimal (h : splitSign (Scalar.dense w) = (negative, '0' :: 'x' :: ds)) :
    Scalar.intOf (Text.ofChars w) = Scalar.signed negative (integer? 16 ds) := by
  rw [Scalar.intOf, Text.chars?_ofChars]
  simp only [h]

/-- A zero alone needs no digits behind it, and is no negative number. -/
theorem intOf_octal (h : splitSign (Scalar.dense w) = (negative, '0' :: ds))
    (hds : DigitsOf 8 ds) :
    Scalar.intOf (Text.ofChars w) = Scalar.signed negative (integer? 8 ('0' :: ds)) := by
  rw [Scalar.intOf, Text.chars?_ofChars]
  simp only [h]
  split
  · rename_i heq
    cases heq
  · rename_i heq
    rw [heq]
    cases negative <;> rfl
  · rename_i heq
    exact absurd (List.cons.inj heq).2 (ne_mark_of_digits hds).1
  · rename_i heq
    exact absurd (List.cons.inj heq).2 (ne_mark_of_digits hds).2
  · rfl
  · rename_i hzero
    exact absurd rfl (hzero ds)

theorem intOf_groups {c : Char} (h : splitSign (Scalar.dense w) = (negative, c :: ds))
    (hc : c ≠ '0') :
    Scalar.intOf (Text.ofChars w) = Scalar.signed negative (sexagesimal? (c :: ds)) := by
  have hzero : ∀ {rest}, c :: ds ≠ '0' :: rest := fun heq => hc (List.cons.inj heq).1
  rw [Scalar.intOf, Text.chars?_ofChars]
  simp only [h]
  split
  · rename_i heq
    cases heq
  · exact absurd ‹_› hzero
  · exact absurd ‹_› hzero
  · exact absurd ‹_› hzero
  · exact absurd ‹_› hzero
  · split
    · rfl
    · rename_i hcolon
      rw [sexagesimal?_of_not_mem fun hmem => hcolon (List.contains_iff_mem.mpr hmem)]

end Bodies

/-- A number that does not start with a zero is in groups. -/
theorem magnitude_groups {c : Char} {ds : List Char} (hc : c ≠ '0') :
    magnitude (c :: ds) = Nat.ofDigits 60 (((c :: ds).splitOn ':').reverse.map (place 10)) := by
  unfold magnitude
  split
  · rename_i heq
    exact absurd (List.cons.inj heq).1 hc
  · rename_i heq
    exact absurd (List.cons.inj heq).1 hc
  · rename_i heq
    exact absurd (List.cons.inj heq).1 hc
  · rfl

theorem magnitude_octal {ds : List Char} (hds : DigitsOf 8 ds) :
    magnitude ('0' :: ds) = place 8 ('0' :: ds) := by
  rw [place_zero_cons]
  unfold magnitude
  split
  · rename_i heq
    exact absurd (List.cons.inj heq).2 (ne_mark_of_digits hds).1
  · rename_i heq
    exact absurd (List.cons.inj heq).2 (ne_mark_of_digits hds).2
  · rename_i heq
    rw [(List.cons.inj heq).2]
  · rename_i hzero
    exact absurd rfl (hzero ds)

/-- The sign goes to what has been read. -/
theorem signed_eq {w : List Char} {r : Option Int}
    (h : r = if Unreadable w then none else some (magnitude (bare w) : Int)) :
    Scalar.signed (decide (w.head? = some '-')) r =
      if Unreadable w then .error .noSuchValue else .ok (.int (denoted w)) := by
  rw [h, denoted]
  split
  · rfl
  · simp only [Scalar.signed, decide_eq_true_eq]

/-- What starts with another digit than zero is read in groups. -/
theorem intOf_of_groups {w front gs : List Char} {c : Char} (h : Magnitude (unsigned w))
    (hw : unsigned w = c :: (front ++ gs)) (hc : c ∈ "123456789".toList)
    (hfront : ∀ d ∈ front, d ∈ "0123456789_".toList) (hgs : Groups gs) :
    Scalar.intOf (Text.ofChars w) =
      if Unreadable w then .error .noSuchValue else .ok (.int (denoted w)) := by
  have hfirst : ∀ c ∈ "123456789".toList,
      c ≠ '_' ∧ c ≠ '0' ∧ c ∈ hexChars ∧ digitValue c < 10 := forall_mem_of_all (by decide)
  obtain ⟨hgap, hzero, hdigit⟩ := hfirst c hc
  have hbare : bare w = c :: (Scalar.dense front ++ gs) := by
    have hdense : bare w = Scalar.dense (c :: (front ++ gs)) := congrArg Scalar.dense hw
    rw [hdense, dense_cons hgap, Scalar.dense, List.filter_append]
    exact congrArg _ (congrArg _ hgs.dense)
  have hparts : ∀ g ∈ (c :: Scalar.dense front ++ gs).splitOn ':', g ≠ [] ∧ DigitsOf 10 g :=
    hgs.splitOn (List.cons_ne_nil _ _)
      (List.forall_mem_cons.mpr ⟨hdigit, digits_dense hfront (forall_mem_of_all (by decide))⟩)
  rw [List.cons_append] at hparts
  have hsplit := splitSign_dense h
  rw [hbare] at hsplit
  rw [intOf_groups hsplit hzero]
  refine signed_eq ?_
  rw [sexagesimal?_of_groups hparts, hbare, magnitude_groups hzero]
  simp [Unreadable, hbare, hzero, digitLimit]

/-- **An integer is read as the number that it denotes**, and those that denote none are refused. -/
theorem intOf_of_magnitude {w : List Char} (h : Magnitude (unsigned w)) :
    Scalar.intOf (Text.ofChars w) =
      if Unreadable w then .error .noSuchValue else .ok (.int (denoted w)) := by
  have hsplit := splitSign_dense h
  have hwhole := h
  generalize hw : unsigned w = u at h
  have hbare : bare w = Scalar.dense u := congrArg Scalar.dense hw
  cases h with
  | @binary ds _ h =>
    have hds : DigitsOf 2 (Scalar.dense ds) := digits_dense h (forall_mem_of_all (by decide))
    have hbare : bare w = '0' :: 'b' :: Scalar.dense ds := hbare
    rw [hbare] at hsplit
    rw [intOf_binary hsplit]
    refine signed_eq ?_
    rw [integer?_of_digits hds, hbare]
    simp [Unreadable, hbare, magnitude]
  | @hexadecimal ds _ h =>
    have hds : DigitsOf 16 (Scalar.dense ds) := digits_dense h (forall_mem_of_all (by decide))
    have hbare : bare w = '0' :: 'x' :: Scalar.dense ds := hbare
    rw [hbare] at hsplit
    rw [intOf_hexadecimal hsplit]
    refine signed_eq ?_
    rw [integer?_of_digits hds, hbare]
    simp [Unreadable, hbare, magnitude]
  | @octal ds h =>
    have hds : DigitsOf 8 (Scalar.dense ds) := digits_dense h (forall_mem_of_all (by decide))
    have hbare : bare w = '0' :: Scalar.dense ds := hbare
    have hall : DigitsOf 8 ('0' :: Scalar.dense ds) := List.forall_mem_cons.mpr ⟨by decide, hds⟩
    have hreadable : ¬ Unreadable w := by
      rintro (hmark | hmark | ⟨hhead, -⟩)
      · exact (ne_mark_of_digits hds).1 (List.cons.inj (hbare.symm.trans hmark)).2
      · exact (ne_mark_of_digits hds).2 (List.cons.inj (hbare.symm.trans hmark)).2
      · exact hhead (by rw [hbare]; rfl)
    rw [hbare] at hsplit
    rw [intOf_octal hsplit hds]
    refine signed_eq ?_
    rw [integer?_of_digits hall, hbare, magnitude_octal hds, if_neg hreadable]
    simp
  | decimal hc h => exact intOf_of_groups hwhole (by rw [hw, List.append_nil]) hc h .nil
  | sexagesimal hc h hgs _ => exact intOf_of_groups hwhole hw hc h hgs

example : denoted "-0b_1_01".toList = -5 ∧ denoted "+0x_fF".toList = 255 ∧
    denoted "0_17".toList = 15 ∧ denoted "1_0:30:05".toList = 37805 := by decide

/-! ## 4. Lines -/

theorem tagOfAtom_of_meaning {tag : Tag} {t : Text} {a : Atom} (h : meaning tag t = .ok a) :
    tagOfAtom a = tag := by
  unfold meaning at h
  cases hvalue : Scalar.valueOf? (.computed 0) tag t with
  | none =>
    rw [hvalue] at h
    cases h
  | some r =>
    rw [hvalue, Option.getD_some] at h
    exact Scalar.tagOfAtom_of_valueOf? (hvalue.trans (congrArg some h))

theorem tagOf_of_plainLine {w : List Char} (h : PlainLine w) :
    Pattern.tagOf w = tagOfWhole w :=
  tagOf_eq fun hmem => (h.within _ hmem).2 (by decide)

/-- No plain scalar starts with a mark that is reserved. -/
theorem not_mem_reservedMarks {w : List Char} (h : PlainLine w) : w ∉ reservedMarks := by
  obtain ⟨c, rest, rfl, -, -, hindicator⟩ := h.first
  have hmarks : ∀ m ∈ reservedMarks, ∀ d ∈ m.head?, d = '!' ∨ d = '&' ∨ d = '*' := by
    simp [reservedMarks]
  intro hmem
  have hsigns : ∀ d, d = '!' ∨ d = '&' ∨ d = '*' →
      d ∈ indicators ∧ ¬ (d = '-' ∨ d = '?' ∨ d = ':') := by
    rintro d (rfl | rfl | rfl) <;> decide
  obtain ⟨hin, hno⟩ := hsigns c (hmarks _ hmem c rfl)
  exact hno (hindicator hin).1

/-- On a line a text matches a pattern exactly if that is what it is taken for. -/
theorem matches_iff_of_plainLine {w : List Char} (h : PlainLine w) {p : Tag × Expression}
    (hp : p ∈ patterns) : Matches p.2 w ↔ Pattern.tagOf w = p.1 := by
  rw [tagOf_of_plainLine h]
  exact matches_pattern_iff hp

/-- What stands alone on a line and matches the pattern of integers. -/
theorem load_integer {w : List Char} (h : PlainLine w) (hw : Matches intPattern w) :
    load w = if Unreadable w then .error .noSuchValue
      else .ok (some (lone (.int (denoted w)))) := by
  have htag : Pattern.tagOf w = .int :=
    (matches_iff_of_plainLine h (p := (.int, intPattern)) (by simp [patterns])).mp hw
  have hmeaning : meaning .int (Text.ofChars w) = Scalar.intOf (Text.ofChars w) := rfl
  rw [load_plainLine h, htag, hmeaning, intOf_of_magnitude (matches_intPattern.mp hw)]
  split <;> rfl

/-- What is an integer matches the pattern of integers. -/
theorem matches_of_accepts {w : List Char} (h : PlainLine w) {d : Document}
    (hload : load w = .ok (some d))
    (hd : PropertyType.integer.accepts (d.graph.kind d.root) = true) : Matches intPattern w := by
  rw [load_plainLine h] at hload
  cases hmeaning : meaning (Pattern.tagOf w) (Text.ofChars w) with
  | error f =>
    rw [hmeaning] at hload
    cases hload
  | ok a =>
    rw [hmeaning] at hload
    cases hload
    have hint : ∃ n, a = .int n := by
      cases PropertyType.accepts_kind_iff.mp hd with
      | integer n => exact ⟨n, rfl⟩
    obtain ⟨n, rfl⟩ := hint
    exact (matches_iff_of_plainLine h (p := (.int, intPattern)) (by simp [patterns])).mpr
      (tagOfAtom_of_meaning hmeaning).symm

/-- **Integers on a line are found and valued exactly.** A plain scalar matches at most one pattern,
    so the order of the patterns does not matter; an integer property accepts it exactly if it
    matches the pattern of integers and denotes a number, which is then its value; and between
    single quotes it is a string. -/
theorem integers_are_exact {w : List Char} (h : PlainLine w) :
    (∀ p ∈ patterns, ∀ q ∈ patterns, Matches p.2 w → Matches q.2 w → p = q) ∧
    (∀ ps : List (Tag × Expression), ps.Perm patterns → firstMatch ps w = Pattern.tagOf w) ∧
    ((∃ d, load w = .ok (some d) ∧
        PropertyType.integer.accepts (d.graph.kind d.root) = true) ↔
      Matches intPattern w ∧ ∃ d, load w = .ok (some d)) ∧
    (Matches intPattern w →
      (load w = .error .noSuchValue ↔ Unreadable w) ∧
      (¬ Unreadable w →
        ∃ d, load w = .ok (some d) ∧ d.graph.object d.root = .atom (.int (denoted w)))) ∧
    ∃ d, load (singleQuoted w) = .ok (some d) ∧
      d.graph.object d.root = .atom (.str (Text.ofChars w)) ∧
      ∀ t : PropertyType, t.accepts (d.graph.kind d.root) = true ↔ t = .string := by
  refine ⟨fun p hp q hq => pattern_unique hp hq, fun ps hps => ?_, ⟨?_, ?_⟩, fun hw => ⟨?_, ?_⟩,
    ?_⟩
  · rw [tagOf_of_plainLine h, firstMatch_eq hps (not_mem_reservedMarks h)]
  · rintro ⟨d, hload, hd⟩
    exact ⟨matches_of_accepts h hload hd, d, hload⟩
  · rintro ⟨hw, d, hload⟩
    refine ⟨d, hload, ?_⟩
    rw [load_integer h hw] at hload
    split at hload
    · cases hload
    · cases hload
      rfl
  · rw [load_integer h hw]
    split
    · rename_i hu
      exact ⟨fun _ => hu, fun _ => rfl⟩
    · rename_i hu
      exact ⟨fun herror => (nomatch herror), fun hu' => absurd hu' hu⟩
  · intro hu
    rw [load_integer h hw, if_neg hu]
    exact ⟨_, rfl, rfl⟩
  · refine ⟨_, load_singleQuoted h.within, rfl, fun t => ?_⟩
    have hkind : t.accepts .string = true ↔ t = .string := by cases t <;> decide
    exact hkind

/-- A number in base sixty, with a sign and an underscore. -/
theorem minus_ten_and_a_half : PlainLine "-1_0:30".toList ∧
    Matches intPattern "-1_0:30".toList ∧ ¬ Unreadable "-1_0:30".toList ∧
    ∃ d, load "-1_0:30".toList = .ok (some d) ∧
      d.graph.object d.root = .atom (.int (-630)) := by
  have hline : PlainLine "-1_0:30".toList :=
    { within := forall_mem_of_all
        (P := fun c => isAllowed c = true ∧ c ∉ lineEnders) (by decide)
      colon := by decide
      comment := by decide
      last := by decide
      first := ⟨'-', "1_0:30".toList, rfl, by decide, by decide,
        fun _ => ⟨.inl rfl, '1', "_0:30".toList, rfl, by decide⟩⟩
      marker := by decide }
  have hmatches : Matches intPattern "-1_0:30".toList :=
    matches_intPattern.mpr (isInt_iff.mp (by decide))
  have hread : ¬ Unreadable "-1_0:30".toList := by decide
  have hdenoted : denoted "-1_0:30".toList = -630 := by decide
  obtain ⟨-, -, -, hvalue, -⟩ := integers_are_exact hline
  rw [← hdenoted]
  exact ⟨hline, hmatches, hread, (hvalue hmatches).2 hread⟩

end Conform.Markup.Dialect
