import Mathlib.Data.List.TakeWhile
import Conform.Proofs.Markup.Expressions
import Conform.Proofs.Number.Numeral

/-!
# The patterns of the dialect

What a plain scalar is recognised as is a matter of seven patterns, which are regular expressions.
The library recognises them by scanning. This file states the patterns and shows that the scanners
find the integers (`isInt_iff`, `matches_intPattern`) and the floating numbers (`isFloat_iff`).
-/

namespace Conform.Markup.Dialect

open Pattern

/-! ## 1. The patterns -/

/-- A digit. -/
def digit : Expression :=
  oneOf "0123456789"

/-- Digits and underscores. -/
def gaps : Expression :=
  any (oneOf "0123456789_")

/-- A sign, or none. -/
def sign : Expression :=
  maybe (oneOf "-+")

/-- A group of base sixty. -/
def group : Expression :=
  seq [.char ':', maybe (oneOf "012345"), digit]

/-- An exponent, or none. -/
def exponent : Expression :=
  maybe (seq [oneOf "eE", oneOf "-+", many digit])

/-- Truth values. -/
def boolPattern : Expression :=
  words ["yes", "Yes", "YES", "no", "No", "NO", "true", "True", "TRUE", "false", "False", "FALSE",
    "on", "On", "ON", "off", "Off", "OFF"]

/-- Floating numbers. Only those that start with a digit, and the infinite ones, have a sign. -/
def floatPattern : Expression :=
  choice
    [seq [sign, digit, gaps, .char '.', gaps, exponent],
     seq [.char '.', digit, gaps, exponent],
     seq [sign, digit, gaps, many group, .char '.', gaps],
     seq [sign, words [".inf", ".Inf", ".INF"]],
     words [".nan", ".NaN", ".NAN"]]

/-- Integers without a sign: binary, octal, decimal, hexadecimal and in base sixty. -/
def magnitudes : List (List Expression) :=
  [[.char '0', .char 'b', many (oneOf "01_")],
   [.char '0', many (oneOf "01234567_")],
   [choice [.char '0', seq [oneOf "123456789", gaps]]],
   [.char '0', .char 'x', many (oneOf "0123456789abcdefABCDEF_")],
   [oneOf "123456789", gaps, many group]]

/-- Integers. -/
def intPattern : Expression :=
  choice (magnitudes.map fun rs => seq (sign :: rs))

/-- What merges mappings. -/
def mergePattern : Expression :=
  word "<<"

/-- Nothing. -/
def nullPattern : Expression :=
  words ["~", "null", "Null", "NULL", ""]

/-- The offset of a time, or none. -/
def offset : Expression :=
  maybe (seq [any (oneOf " \t"), choice [.char 'Z', seq [oneOf "-+", digit, maybe digit,
    maybe (seq [.char ':', digit, digit])]]])

/-- The time of day behind a date. -/
def clock : List Expression :=
  [choice [oneOf "Tt", many (oneOf " \t")], digit, maybe digit, .char ':', digit, digit,
   .char ':', digit, digit, maybe (seq [.char '.', any digit]), offset]

/-- Days, and times. -/
def timestampPattern : Expression :=
  choice
    [seq [digit, digit, digit, digit, .char '-', digit, digit, .char '-', digit, digit],
     seq ([digit, digit, digit, digit, .char '-', digit, maybe digit, .char '-', digit,
       maybe digit] ++ clock)]

/-- What stands for the value of a mapping. -/
def valuePattern : Expression :=
  word "="

/-- The patterns, in the order in which they are tried. -/
def patterns : List (Tag × Expression) :=
  [(.bool, boolPattern), (.float, floatPattern), (.int, intPattern), (.merge, mergePattern),
   (.null, nullPattern), (.timestamp, timestampPattern), (.value, valuePattern)]

/-! ## 2. Classes of characters -/

/-- A class of characters of ASCII is a list of characters if both agree there. -/
theorem class_iff {p : Char → Bool} {cs : List Char} (hp : ∀ c, p c = true → c.toNat < 128)
    (hcs : cs.all (·.toNat < 128) = true)
    (hall : ∀ n < 128, p (Char.ofNat n) = cs.contains (Char.ofNat n)) (c : Char) :
    p c = true ↔ c ∈ cs := by
  have hiff : c.toNat < 128 → (p c = true ↔ c ∈ cs) := fun hc => by
    have h := hall c.toNat hc
    rw [Char.ofNat_toNat] at h
    rw [h, List.contains_iff_mem]
  constructor
  · exact fun h => (hiff (hp c h)).mp h
  · exact fun h => (hiff (by simpa using List.all_eq_true.mp hcs c h)).mpr h

theorem mem_digit_iff {c : Char} : c ∈ "0123456789".toList ↔ isDigit c = true :=
  isDigit_iff.symm

theorem mem_gaps_iff (c : Char) : isDigitGap c = true ↔ c ∈ "0123456789_".toList := by
  refine class_iff (fun c hc => ?_) (by decide) (by decide) c
  simp only [isDigitGap, isDigit, Bool.or_eq_true, Bool.and_eq_true, decide_eq_true_eq] at hc
  rcases hc with hc | rfl
  · omega
  · decide

theorem toNat_of_isBaseGap {base : Nat} {c : Char} (h : isBaseGap base c = true) :
    c.toNat < 128 := by
  simp only [isBaseGap, Bool.or_eq_true, decide_eq_true_eq] at h
  rcases h with h | rfl
  · by_contra hc
    have hnone : baseDigit? base c = none := by
      unfold baseDigit?
      have h₁ : ¬ c.toNat ≤ 57 := by omega
      have h₂ : ¬ c.toNat ≤ 122 := by omega
      have h₃ : ¬ c.toNat ≤ 90 := by omega
      simp [h₁, h₂, h₃]
    rw [hnone] at h
    cases h
  · decide

theorem mem_binary_iff (c : Char) : isBaseGap 2 c = true ↔ c ∈ "01_".toList :=
  class_iff (fun _ => toNat_of_isBaseGap) (by decide) (by decide) c

theorem mem_octal_iff (c : Char) : isBaseGap 8 c = true ↔ c ∈ "01234567_".toList :=
  class_iff (fun _ => toNat_of_isBaseGap) (by decide) (by decide) c

theorem mem_hexadecimal_iff (c : Char) :
    isBaseGap 16 c = true ↔ c ∈ "0123456789abcdefABCDEF_".toList :=
  class_iff (fun _ => toNat_of_isBaseGap) (by decide) (by decide) c

/-! ## 3. Signs and groups -/

theorem unsigned_cases (w : List Char) :
    (unsigned w = w ∧ ∀ s ∈ "-+".toList, w.head? ≠ some s) ∨
      ∃ s ∈ "-+".toList, w = s :: unsigned w := by
  unfold unsigned
  split
  · exact .inr ⟨'-', by decide, rfl⟩
  · exact .inr ⟨'+', by decide, rfl⟩
  · rename_i hminus hplus
    refine .inl ⟨rfl, fun s hs hw => ?_⟩
    obtain ⟨rest, rfl⟩ := List.head?_eq_some_iff.mp hw
    have hs' : s = '-' ∨ s = '+' := by simpa using hs
    rcases hs' with rfl | rfl
    · exact hminus rest rfl
    · exact hplus rest rfl

/-- A sign in front of what has none. -/
theorem matches_sign_cons {rs : List Expression}
    (h : ∀ u, Matches (seq rs) u → ∀ s ∈ "-+".toList, u.head? ≠ some s) {w : List Char} :
    Matches (seq (sign :: rs)) w ↔ Matches (seq rs) (unsigned w) := by
  rw [sign, matches_maybe_cons, matches_oneOf_cons]
  constructor
  · rintro (hw | ⟨s, rest, rfl, hs, hrest⟩)
    · rcases unsigned_cases w with ⟨hself, -⟩ | ⟨s, hs, hcons⟩
      · rwa [hself]
      · exact absurd (by rw [hcons]; rfl) (h w hw s hs)
    · rcases unsigned_cases (s :: rest) with ⟨-, hnone⟩ | ⟨s', -, hcons⟩
      · exact absurd rfl (hnone s hs)
      · rwa [← (List.cons.inj hcons).2]
  · intro hw
    rcases unsigned_cases w with ⟨hself, -⟩ | ⟨s, hs, hcons⟩
    · exact .inl (hself ▸ hw)
    · exact .inr ⟨s, unsigned w, hcons, hs, hw⟩

/-- Groups of base sixty. -/
inductive Groups : List Char → Prop
  | nil : Groups []
  | one {d : Char} {rest : List Char} (hd : isDigit d = true) (hrest : Groups rest) :
      Groups (':' :: d :: rest)
  | two {t d : Char} {rest : List Char} (ht : t ∈ "012345".toList) (hd : isDigit d = true)
      (hrest : Groups rest) : Groups (':' :: t :: d :: rest)

theorem matches_group_cons {rs : List Expression} {w : List Char} :
    Matches (seq (group :: rs)) w ↔
      (∃ d rest, w = ':' :: d :: rest ∧ isDigit d = true ∧ Matches (seq rs) rest) ∨
        ∃ t d rest, w = ':' :: t :: d :: rest ∧ t ∈ "012345".toList ∧ isDigit d = true ∧
          Matches (seq rs) rest := by
  simp only [group, digit, matches_seq_seq, List.cons_append, List.nil_append, matches_char_cons,
    matches_maybe_cons, matches_oneOf_cons, mem_digit_iff]
  constructor
  · rintro ⟨more, rfl, ⟨d, rest, rfl, hd, hrest⟩ | ⟨t, more, rfl, ht, d, rest, rfl, hd, hrest⟩⟩
    · exact .inl ⟨d, rest, rfl, hd, hrest⟩
    · exact .inr ⟨t, d, rest, rfl, ht, hd, hrest⟩
  · rintro (⟨d, rest, rfl, hd, hrest⟩ | ⟨t, d, rest, rfl, ht, hd, hrest⟩)
    · exact ⟨_, rfl, .inl ⟨d, rest, rfl, hd, hrest⟩⟩
    · exact ⟨_, rfl, .inr ⟨t, _, rfl, ht, d, rest, rfl, hd, hrest⟩⟩

theorem matches_group {w : List Char} : Matches group w ↔
    (∃ d, w = [':', d] ∧ isDigit d = true) ∨
      ∃ t d, w = [':', t, d] ∧ t ∈ "012345".toList ∧ isDigit d = true := by
  rw [← matches_seq_singleton, matches_group_cons]
  constructor
  · rintro (⟨d, _, rfl, hd, rfl⟩ | ⟨t, d, _, rfl, ht, hd, rfl⟩)
    · exact .inl ⟨d, rfl, hd⟩
    · exact .inr ⟨t, d, rfl, ht, hd⟩
  · rintro (⟨d, rfl, hd⟩ | ⟨t, d, rfl, ht, hd⟩)
    · exact .inl ⟨d, [], rfl, hd, rfl⟩
    · exact .inr ⟨t, d, [], rfl, ht, hd, rfl⟩

theorem matches_any_group {w : List Char} : Matches (any group) w ↔ Groups w := by
  constructor
  · intro h
    obtain ⟨parts, rfl, hparts⟩ := matches_any.mp h
    clear h
    induction parts with
    | nil => exact .nil
    | cons p ps ih =>
      obtain ⟨hp, hps⟩ := List.forall_mem_cons.mp hparts
      rcases matches_group.mp hp with ⟨d, rfl, hd⟩ | ⟨t, d, rfl, ht, hd⟩
      · exact .one hd (ih hps)
      · exact .two ht hd (ih hps)
  · intro h
    induction h with
    | nil => exact matches_any.mpr ⟨[], rfl, fun _ hp => absurd hp List.not_mem_nil⟩
    | one hd _ ih => exact matches_any_append (matches_group.mpr (.inl ⟨_, rfl, hd⟩)) ih
    | two ht hd _ ih => exact matches_any_append (matches_group.mpr (.inr ⟨_, _, rfl, ht, hd⟩)) ih

theorem matches_many_group {w : List Char} : Matches (many group) w ↔ Groups w ∧ w ≠ [] := by
  constructor
  · intro h
    obtain ⟨a, b, rfl, ha, hb⟩ := matches_many.mp h
    refine ⟨matches_any_group.mp (matches_any_append ha hb), fun hnil => ?_⟩
    rcases matches_group.mp ha with ⟨d, rfl, -⟩ | ⟨t, d, rfl, -⟩
    · cases hnil
    · cases hnil
  · rintro ⟨h, hne⟩
    cases h with
    | nil => exact absurd rfl hne
    | one hd hrest =>
      exact matches_many.mpr ⟨_, _, rfl, matches_group.mpr (.inl ⟨_, rfl, hd⟩),
        matches_any_group.mpr hrest⟩
    | two ht hd hrest =>
      exact matches_many.mpr ⟨_, _, rfl, matches_group.mpr (.inr ⟨_, _, rfl, ht, hd⟩),
        matches_any_group.mpr hrest⟩

theorem Groups.head? {gs : List Char} (h : Groups gs) : ∀ c ∈ gs.head?, c = ':' := by
  cases h <;> simp

/-- What is scanned as groups are groups. -/
theorem groups_of_afterGroups? {again : Bool} {w rest : List Char}
    (h : afterGroups? again w = some rest) :
    ∃ gs, w = gs ++ rest ∧ Groups gs ∧ (again = true ∨ gs ≠ []) := by
  fun_induction afterGroups? again w with
  | case1 => cases h
  | case2 => cases h
  | case3 again a b cs ha hb hle ih =>
    obtain ⟨gs, rfl, hgs, -⟩ := ih h
    have hdigit : isDigit a = true := by simpa using ha
    have hsmall : ∀ c ∈ digitChars, ¬ '5' < c → c ∈ "012345".toList :=
      forall_mem_of_all (by decide)
    exact ⟨':' :: a :: b :: gs, rfl, .two (hsmall a (isDigit_iff.mp hdigit) hle) hb hgs, .inr (by simp)⟩
  | case4 again a b cs ha hb ih =>
    obtain ⟨gs, hcons, hgs, -⟩ := ih h
    exact ⟨':' :: a :: gs, by rw [hcons]; rfl, .one (by simpa using ha) hgs, .inr (by simp)⟩
  | case5 again a ha =>
    cases h
    exact ⟨[':', a], rfl, .one ha .nil, .inr (by simp)⟩
  | case6 => cases h
  | case7 =>
    cases h
    exact ⟨[], rfl, .nil, .inl rfl⟩
  | case8 => cases h

/-- Groups are scanned up to what goes on with no digit and no colon. -/
theorem afterGroups?_of_groups {gs rest : List Char} (hgs : Groups gs)
    (hrest : ∀ c ∈ rest.head?, isDigit c = false ∧ c ≠ ':') :
    ∀ again, again = true ∨ gs ≠ [] → afterGroups? again (gs ++ rest) = some rest := by
  induction hgs with
  | nil =>
    intro again hagain
    obtain rfl : again = true := hagain.resolve_right (by simp)
    rw [List.nil_append, afterGroups?]
    · rfl
    · rintro a b cs rfl
      exact (hrest ':' rfl).2 rfl
    · rintro a rfl
      exact (hrest ':' rfl).2 rfl
  | @one d gs hd hgs ih =>
    intro again _
    cases hmore : gs ++ rest with
    | nil =>
      obtain ⟨rfl, rfl⟩ := List.append_eq_nil_iff.mp hmore
      simp [afterGroups?, hd]
    | cons b cs =>
      have hb : isDigit b = false := by
        cases gs with
        | nil => exact (hrest b (by rw [← List.nil_append rest, hmore]; rfl)).1
        | cons g gs =>
          obtain rfl : g = b := (List.cons.inj hmore).1
          rw [hgs.head? g rfl]
          rfl
      have hnext := ih true (.inl rfl)
      rw [hmore] at hnext
      rw [List.cons_append, List.cons_append, hmore, afterGroups?, hd, hb]
      exact hnext
  | @two t d gs ht hd hgs ih =>
    intro again _
    have hsmall : ∀ c ∈ "012345".toList, isDigit c = true ∧ ¬ '5' < c :=
      forall_mem_of_all (by decide)
    obtain ⟨hdigit, hle⟩ := hsmall t ht
    rw [List.cons_append, List.cons_append, List.cons_append, afterGroups?, hdigit, hd, if_neg hle]
    exact ih true (.inl rfl)

/-! ## 4. Integers -/

/-- Characters of a class in front of another one are scanned. -/
theorem dropWhile_append {p : Char → Bool} {ds rest : List Char} (hds : ∀ d ∈ ds, p d = true)
    (hrest : ∀ c ∈ rest.head?, p c = false) : (ds ++ rest).dropWhile p = rest := by
  rw [List.dropWhile_append_of_pos hds]
  cases rest with
  | nil => rfl
  | cons c cs => rw [List.dropWhile_cons, hrest c rfl, if_neg Bool.false_ne_true]

/-- What is scanned of a class, and what is left. -/
theorem exists_dropWhile (p : Char → Bool) (w : List Char) :
    ∃ ds, w = ds ++ w.dropWhile p ∧ ∀ d ∈ ds, p d = true :=
  ⟨w.takeWhile p, List.takeWhile_append_dropWhile.symm, fun _ => List.mem_takeWhile_imp⟩

/-- An integer without its sign. -/
inductive Magnitude : List Char → Prop
  | binary {ds : List Char} (hne : ds ≠ []) (h : ∀ d ∈ ds, d ∈ "01_".toList) :
      Magnitude ('0' :: 'b' :: ds)
  | octal {ds : List Char} (h : ∀ d ∈ ds, d ∈ "01234567_".toList) : Magnitude ('0' :: ds)
  | decimal {c : Char} {ds : List Char} (hc : c ∈ "123456789".toList)
      (h : ∀ d ∈ ds, d ∈ "0123456789_".toList) : Magnitude (c :: ds)
  | hexadecimal {ds : List Char} (hne : ds ≠ [])
      (h : ∀ d ∈ ds, d ∈ "0123456789abcdefABCDEF_".toList) : Magnitude ('0' :: 'x' :: ds)
  | sexagesimal {c : Char} {ds gs : List Char} (hc : c ∈ "123456789".toList)
      (h : ∀ d ∈ ds, d ∈ "0123456789_".toList) (hgs : Groups gs) (hne : gs ≠ []) :
      Magnitude (c :: (ds ++ gs))

theorem Magnitude.exists_cons {u : List Char} (h : Magnitude u) :
    ∃ c rest, u = c :: rest ∧ isDigit c = true := by
  have hdigit : ∀ c ∈ "123456789".toList, isDigit c = true := forall_mem_of_all (by decide)
  cases h with
  | binary => exact ⟨_, _, rfl, rfl⟩
  | octal => exact ⟨_, _, rfl, rfl⟩
  | decimal hc => exact ⟨_, _, rfl, hdigit _ hc⟩
  | hexadecimal => exact ⟨_, _, rfl, rfl⟩
  | sexagesimal hc => exact ⟨_, _, rfl, hdigit _ hc⟩

theorem Magnitude.unsigned {u : List Char} (h : Magnitude u) :
    ∀ s ∈ "-+".toList, u.head? ≠ some s := by
  have hsign : ∀ s ∈ "-+".toList, ¬ isDigit s = true := forall_mem_of_all (by decide)
  obtain ⟨c, rest, rfl, hc⟩ := h.exists_cons
  rintro s hs ⟨⟩
  exact hsign c hs hc

theorem isSexagesimal_iff {w : List Char} : isSexagesimal w = true ↔
    ∃ ds gs, w = ds ++ gs ∧ (∀ d ∈ ds, isDigitGap d = true) ∧ Groups gs ∧ gs ≠ [] := by
  rw [isSexagesimal]
  constructor
  · intro h
    split at h
    · rename_i hscan
      obtain ⟨gs, hgs, hgroups, hne⟩ := groups_of_afterGroups? hscan
      obtain ⟨ds, hds, hall⟩ := exists_dropWhile isDigitGap w
      rw [hgs, List.append_nil] at hds
      exact ⟨ds, gs, hds, hall, hgroups, hne.resolve_left Bool.false_ne_true⟩
    · cases h
  · rintro ⟨ds, gs, rfl, hds, hgs, hne⟩
    have hscan : afterGroups? false (gs ++ []) = some [] :=
      afterGroups?_of_groups hgs (by simp) false (.inr hne)
    rw [List.append_nil] at hscan
    rw [dropWhile_append hds fun c hc => by rw [hgs.head? c hc]; rfl, hscan]

/-- An integer that does not start with a zero is decimal or in base sixty. -/
theorem isInt_of_ne_zero {w : List Char} {c : Char} {rest : List Char} (hw : unsigned w = c :: rest)
    (hc : c ≠ '0') : isInt w = (isDigit c && (rest.all isDigitGap || isSexagesimal rest)) := by
  unfold isInt
  rw [hw]
  split
  · rename_i heq
    cases heq
  · rename_i heq
    exact absurd (List.cons.inj heq).1 hc
  · rename_i heq
    cases heq
    rfl

theorem magnitude_of_isInt {w : List Char} (h : isInt w = true) : Magnitude (unsigned w) := by
  have hlead : ∀ c, isDigit c = true → c ≠ '0' → c ∈ "123456789".toList := fun c hc =>
    forall_isDigit (P := fun c => c ≠ '0' → c ∈ "123456789".toList) (by decide) hc
  unfold isInt at h
  generalize unsigned w = u at h
  split at h
  · cases h
  · rename_i rest
    split at h
    · exact .octal (by simp)
    · rename_i ds
      rw [Bool.and_eq_true, List.all_eq_true] at h
      exact .binary (by simpa using h.1) fun d hd => (mem_binary_iff d).mp (h.2 d hd)
    · rename_i ds
      rw [Bool.and_eq_true, List.all_eq_true] at h
      exact .hexadecimal (by simpa using h.1) fun d hd => (mem_hexadecimal_iff d).mp (h.2 d hd)
    · rw [List.all_eq_true] at h
      exact .octal fun d hd => (mem_octal_iff d).mp (h d hd)
  · rename_i c rest hzero
    rw [Bool.and_eq_true, Bool.or_eq_true] at h
    have hc := hlead c h.1 fun e => hzero (by rw [e])
    rcases h.2 with hall | hgroups
    · exact .decimal hc fun d hd => (mem_gaps_iff d).mp (List.all_eq_true.mp hall d hd)
    · obtain ⟨ds, gs, rfl, hds, hgs, hne⟩ := isSexagesimal_iff.mp hgroups
      exact .sexagesimal hc (fun d hd => (mem_gaps_iff d).mp (hds d hd)) hgs hne

theorem isInt_of_magnitude {w : List Char} (h : Magnitude (unsigned w)) : isInt w = true := by
  have hdigit : ∀ c ∈ "123456789".toList, isDigit c = true ∧ c ≠ '0' :=
    forall_mem_of_all (by decide)
  generalize hw : unsigned w = u at h
  cases h with
  | @binary ds hne h =>
    have hall : ds.all (isBaseGap 2) = true :=
      List.all_eq_true.mpr fun d hd => (mem_binary_iff d).mpr (h d hd)
    simp [isInt, hw, hall, hne]
  | @octal ds h =>
    have hall : ds.all (isBaseGap 8) = true :=
      List.all_eq_true.mpr fun d hd => (mem_octal_iff d).mpr (h d hd)
    simp only [isInt, hw]
    split
    · rfl
    · exact absurd (h 'b' (by simp)) (by decide)
    · exact absurd (h 'x' (by simp)) (by decide)
    · exact hall
  | @decimal c ds hc h =>
    have hall : ds.all isDigitGap = true :=
      List.all_eq_true.mpr fun d hd => (mem_gaps_iff d).mpr (h d hd)
    rw [isInt_of_ne_zero hw (hdigit c hc).2, (hdigit c hc).1, hall]
    rfl
  | @hexadecimal ds hne h =>
    have hall : ds.all (isBaseGap 16) = true :=
      List.all_eq_true.mpr fun d hd => (mem_hexadecimal_iff d).mpr (h d hd)
    simp [isInt, hw, hall, hne]
  | @sexagesimal c ds gs hc h hgs hne =>
    have hall : isSexagesimal (ds ++ gs) = true :=
      isSexagesimal_iff.mpr ⟨ds, gs, rfl, fun d hd => (mem_gaps_iff d).mpr (h d hd), hgs, hne⟩
    rw [isInt_of_ne_zero hw (hdigit c hc).2, (hdigit c hc).1, hall, Bool.or_true]
    rfl

/-- **The scanner finds the integers.** -/
theorem isInt_iff {w : List Char} : isInt w = true ↔ Magnitude (unsigned w) :=
  ⟨magnitude_of_isInt, isInt_of_magnitude⟩

/-- The alternatives of the pattern behind the sign. -/
theorem matches_magnitudes {u : List Char} :
    (∃ rs ∈ magnitudes, Matches (seq rs) u) ↔ Magnitude u := by
  simp only [magnitudes, List.exists_mem_cons_iff, List.not_mem_nil, false_and, exists_false,
    or_false, matches_char_cons, matches_seq_singleton, matches_many_oneOf, matches_choice,
    matches_char, matches_oneOf_cons, gaps, matches_any_oneOf, matches_any_oneOf_cons,
    matches_many_group]
  constructor
  · rintro (⟨_, rfl, ds, rfl, hne, h⟩ | ⟨ds, rfl, hne, h⟩ | (rfl | ⟨c, ds, rfl, hc, h⟩) |
      ⟨_, rfl, ds, rfl, hne, h⟩ | ⟨c, _, rfl, hc, ds, gs, rfl, h, hgs, hne⟩)
    · exact .binary hne h
    · exact .octal h
    · exact .octal (by simp)
    · exact .decimal hc h
    · exact .hexadecimal hne h
    · exact .sexagesimal hc h hgs hne
  · intro h
    cases h with
    | @binary ds hne h => exact .inl ⟨_, rfl, ds, rfl, hne, h⟩
    | @octal ds h =>
      by_cases hne : ds = []
      · exact .inr (.inr (.inl (.inl (by rw [hne]))))
      · exact .inr (.inl ⟨ds, rfl, hne, h⟩)
    | @decimal c ds hc h => exact .inr (.inr (.inl (.inr ⟨c, ds, rfl, hc, h⟩)))
    | @hexadecimal ds hne h => exact .inr (.inr (.inr (.inl ⟨_, rfl, ds, rfl, hne, h⟩)))
    | @sexagesimal c ds gs hc h hgs hne =>
      exact .inr (.inr (.inr (.inr ⟨c, _, rfl, hc, ds, gs, rfl, h, hgs, hne⟩)))

/-- **The pattern of integers is a sign and a magnitude.** -/
theorem matches_intPattern {w : List Char} : Matches intPattern w ↔ Magnitude (unsigned w) := by
  have hsigned : ∀ rs ∈ magnitudes,
      (Matches (seq (sign :: rs)) w ↔ Matches (seq rs) (unsigned w)) := fun rs hrs =>
    matches_sign_cons fun u hu => (matches_magnitudes.mp ⟨rs, hrs, hu⟩).unsigned
  rw [← matches_magnitudes, intPattern, matches_choice]
  simp only [List.mem_map, exists_exists_and_eq_and]
  exact exists_congr fun rs => and_congr_right (hsigned rs)

/-! ## 5. Floating numbers -/

theorem isExponent_iff {w : List Char} : isExponent w = true ↔ Matches exponent w := by
  have hclass : ∀ ds : List Char, ds.all isDigit = true ↔ ∀ d ∈ ds, d ∈ "0123456789".toList :=
    fun ds => by simp only [List.all_eq_true, mem_digit_iff]
  simp only [exponent, matches_maybe, digit, matches_oneOf_cons, matches_seq_singleton,
    matches_many_oneOf]
  constructor
  · intro h
    unfold isExponent at h
    split at h
    · exact .inl rfl
    · rename_i e s ds
      simp only [Bool.and_eq_true, Bool.or_eq_true, decide_eq_true_eq, hclass] at h
      obtain ⟨⟨⟨he, hs⟩, hne⟩, hds⟩ := h
      exact .inr ⟨e, _, rfl, by simpa using he, s, ds, rfl, by simpa using hs, by simpa using hne,
        hds⟩
    · cases h
  · rintro (rfl | ⟨e, _, rfl, he, s, ds, rfl, hs, hne, hds⟩)
    · rfl
    · have he' : e = 'e' ∨ e = 'E' := by simpa using he
      have hs' : s = '-' ∨ s = '+' := by simpa using hs
      simp only [isExponent, Bool.and_eq_true, Bool.or_eq_true, decide_eq_true_eq, hclass]
      exact ⟨⟨⟨he', hs'⟩, by simpa using hne⟩, hds⟩

/-- An exponent goes on with no digit and no underscore. -/
theorem head?_of_exponent {w : List Char} (h : Matches exponent w) :
    ∀ c ∈ w.head?, isDigitGap c = false := by
  have hclass : ∀ c ∈ "eE".toList, isDigitGap c = false := forall_mem_of_all (by decide)
  simp only [exponent, matches_maybe, matches_oneOf_cons] at h
  rcases h with rfl | ⟨e, _, rfl, he, -⟩
  · simp
  · rintro c ⟨⟩
    exact hclass e he

/-- Characters of a class in front of what starts with none of them. -/
theorem matches_class_cons {cs : String} {p : Char → Bool} (hp : ∀ c, p c = true ↔ c ∈ cs.toList)
    {rs : List Expression} (h : ∀ u, Matches (seq rs) u → ∀ c ∈ u.head?, p c = false)
    {w : List Char} :
    Matches (seq (any (oneOf cs) :: rs)) w ↔ Matches (seq rs) (w.dropWhile p) := by
  simp only [matches_any_oneOf_cons, ← hp]
  constructor
  · rintro ⟨ds, rest, rfl, hds, hrest⟩
    rwa [dropWhile_append hds (h rest hrest)]
  · intro hrest
    obtain ⟨ds, hw, hds⟩ := exists_dropWhile p w
    exact ⟨ds, _, hw, hds, hrest⟩

theorem matches_gaps_cons {rs : List Expression}
    (h : ∀ u, Matches (seq rs) u → ∀ c ∈ u.head?, isDigitGap c = false) {w : List Char} :
    Matches (seq (gaps :: rs)) w ↔ Matches (seq rs) (w.dropWhile isDigitGap) :=
  matches_class_cons mem_gaps_iff h

theorem matches_gaps_exponent {w : List Char} :
    Matches (seq [gaps, exponent]) w ↔ isExponent (w.dropWhile isDigitGap) = true := by
  rw [matches_gaps_cons fun u hu => head?_of_exponent (matches_seq_singleton.mp hu),
    matches_seq_singleton, isExponent_iff]

theorem isFraction_iff {w : List Char} :
    isFraction w = true ↔ Matches (seq [.char '.', gaps, exponent]) w := by
  simp only [matches_char_cons, matches_gaps_exponent]
  constructor
  · intro h
    unfold isFraction at h
    split at h
    · exact ⟨_, rfl, h⟩
    · cases h
  · rintro ⟨rest, rfl, h⟩
    exact h

theorem isPointTail_iff {w : List Char} :
    isPointTail w = true ↔ Matches (seq [.char '.', gaps]) w := by
  simp only [matches_char_cons, matches_seq_singleton, gaps, matches_any_oneOf, ← mem_gaps_iff]
  constructor
  · intro h
    unfold isPointTail at h
    split at h
    · exact ⟨_, rfl, List.all_eq_true.mp h⟩
    · cases h
  · rintro ⟨rest, rfl, h⟩
    exact List.all_eq_true.mpr h

theorem isSexagesimalFraction_iff {w : List Char} :
    ((afterGroups? false (w.dropWhile isDigitGap)).map isPointTail).getD false = true ↔
      Matches (seq [gaps, many group, .char '.', gaps]) w := by
  have hpoint : ∀ u, Matches (seq [.char '.', gaps]) u → ∀ c ∈ u.head?, c = '.' := by
    intro u hu c hc
    obtain ⟨rest, rfl, -⟩ := matches_char_cons.mp hu
    exact (Option.some.inj hc).symm
  have hcolon : ∀ u, Matches (seq [many group, .char '.', gaps]) u →
      ∀ c ∈ u.head?, isDigitGap c = false := by
    intro u hu c hc
    obtain ⟨gs, hgs, rest, -, rfl⟩ := matches_seq_cons.mp hu
    obtain ⟨hgroups, hne⟩ := matches_many_group.mp hgs
    obtain ⟨g, gs, rfl⟩ := List.exists_cons_of_ne_nil hne
    obtain rfl : g = c := Option.some.inj hc
    rw [hgroups.head? g rfl]
    rfl
  rw [matches_gaps_cons hcolon]
  generalize w.dropWhile isDigitGap = u
  rw [matches_seq_cons]
  constructor
  · intro h
    cases hscan : afterGroups? false u with
    | none =>
      rw [hscan] at h
      cases h
    | some rest =>
      obtain ⟨gs, rfl, hgs, hne⟩ := groups_of_afterGroups? hscan
      rw [hscan] at h
      exact ⟨gs, matches_many_group.mpr ⟨hgs, hne.resolve_left Bool.false_ne_true⟩, rest,
        isPointTail_iff.mp h, rfl⟩
  · rintro ⟨gs, hgs, rest, hrest, rfl⟩
    obtain ⟨hgroups, hne⟩ := matches_many_group.mp hgs
    rw [afterGroups?_of_groups hgroups (fun c hc => ?_) false (.inr hne)]
    · exact isPointTail_iff.mpr hrest
    · rw [hpoint rest hrest c hc]
      exact ⟨rfl, by decide⟩

/-- The alternatives of the pattern, with the signs taken off. -/
theorem matches_floatPattern {w : List Char} : Matches floatPattern w ↔
    Matches (seq [digit, gaps, .char '.', gaps, exponent]) (unsigned w) ∨
    Matches (seq [.char '.', digit, gaps, exponent]) w ∨
    Matches (seq [digit, gaps, many group, .char '.', gaps]) (unsigned w) ∨
    Matches (words [".inf", ".Inf", ".INF"]) (unsigned w) ∨
    Matches (words [".nan", ".NaN", ".NAN"]) w := by
  have hdigit : ∀ rs u, Matches (seq (digit :: rs)) u →
      ∀ s ∈ "-+".toList, u.head? ≠ some s := by
    intro rs u hu s hs hhead
    obtain ⟨c, rest, rfl, hc, -⟩ := matches_oneOf_cons.mp hu
    obtain rfl : c = s := Option.some.inj hhead
    have hnone : ∀ s ∈ "-+".toList, s ∉ "0123456789".toList := forall_mem_of_all (by decide)
    exact hnone c hs hc
  have hname : ∀ u, Matches (seq [words [".inf", ".Inf", ".INF"]]) u →
      ∀ s ∈ "-+".toList, u.head? ≠ some s := by
    intro u hu s hs
    rw [matches_seq_singleton, matches_words] at hu
    have hpoint : ∀ s ∈ "-+".toList, ∀ u ∈ [".inf", ".Inf", ".INF"].map String.toList,
        u.head? ≠ some s := forall_mem_of_all (by decide)
    exact hpoint s hs u hu
  simp only [floatPattern, matches_choice, List.exists_mem_cons_iff, List.not_mem_nil, false_and,
    exists_false, or_false, matches_sign_cons (hdigit _), matches_sign_cons hname,
    matches_seq_singleton]

theorem matches_digit_fraction {c : Char} {rest : List Char} :
    Matches (seq [digit, gaps, .char '.', gaps, exponent]) (c :: rest) ↔
      isDigit c = true ∧ isFraction (rest.dropWhile isDigitGap) = true := by
  have hpoint : ∀ u, Matches (seq [.char '.', gaps, exponent]) u →
      ∀ c ∈ u.head?, isDigitGap c = false := by
    intro u hu c hc
    obtain ⟨rest, rfl, -⟩ := matches_char_cons.mp hu
    cases hc
    rfl
  rw [isFraction_iff, ← matches_gaps_cons hpoint, digit, matches_oneOf_cons, ← mem_digit_iff]
  constructor
  · rintro ⟨_, _, ⟨⟩, hc, hrest⟩
    exact ⟨hc, hrest⟩
  · rintro ⟨hc, hrest⟩
    exact ⟨c, rest, rfl, hc, hrest⟩

theorem matches_digit_groups {c : Char} {rest : List Char} :
    Matches (seq [digit, gaps, many group, .char '.', gaps]) (c :: rest) ↔ isDigit c = true ∧
      ((afterGroups? false (rest.dropWhile isDigitGap)).map isPointTail).getD false = true := by
  rw [isSexagesimalFraction_iff, digit, matches_oneOf_cons, ← mem_digit_iff]
  constructor
  · rintro ⟨_, _, ⟨⟩, hc, hrest⟩
    exact ⟨hc, hrest⟩
  · rintro ⟨hc, hrest⟩
    exact ⟨c, rest, rfl, hc, hrest⟩

theorem matches_point_digit {w : List Char} :
    Matches (seq [.char '.', digit, gaps, exponent]) w ↔ ∃ d more, w = '.' :: d :: more ∧
      isDigit d = true ∧ isExponent (more.dropWhile isDigitGap) = true := by
  simp only [matches_char_cons, digit, matches_oneOf_cons, mem_digit_iff, matches_gaps_exponent]
  constructor
  · rintro ⟨_, rfl, d, more, rfl, hd, hmore⟩
    exact ⟨d, more, rfl, hd, hmore⟩
  · rintro ⟨d, more, rfl, hd, hmore⟩
    exact ⟨_, rfl, d, more, rfl, hd, hmore⟩

/-- **The scanner finds the floating numbers.** -/
theorem isFloat_iff {w : List Char} : isFloat w = true ↔ Matches floatPattern w := by
  have hinfinity : ∀ {u : List Char}, infinityNames.contains u = true ↔
      Matches (words [".inf", ".Inf", ".INF"]) u := fun {u} => by
    rw [List.contains_iff_mem, matches_words]
    rfl
  have hnan : ∀ {u : List Char}, nanNames.contains u = true ↔
      Matches (words [".nan", ".NaN", ".NAN"]) u := fun {u} => by
    rw [List.contains_iff_mem, matches_words]
    rfl
  rw [matches_floatPattern]
  constructor
  · intro h
    unfold isFloat at h
    simp only [Bool.or_eq_true] at h
    rcases h with (h | h) | h
    · exact .inr (.inr (.inr (.inl (hinfinity.mp h))))
    · exact .inr (.inr (.inr (.inr (hnan.mp h))))
    · split at h
      · cases h
      · rename_i c rest hbody
        rw [hbody]
        split at h
        · rename_i hc
          rcases Bool.or_eq_true_iff.mp h with h | h
          · exact .inl (matches_digit_fraction.mpr ⟨hc, h⟩)
          · exact .inr (.inr (.inl (matches_digit_groups.mpr ⟨hc, h⟩)))
        · split at h
          · rename_i d more
            rw [Bool.and_eq_true] at h
            exact .inr (.inl (matches_point_digit.mpr ⟨d, more, rfl, h⟩))
          · cases h
  · have hbody : ∀ {rs}, Matches (seq (digit :: rs)) (unsigned w) →
        ∃ c rest, unsigned w = c :: rest := fun h => by
      obtain ⟨c, rest, hcons, -⟩ := matches_oneOf_cons.mp h
      exact ⟨c, rest, hcons⟩
    rintro (h | h | h | h | h)
    · obtain ⟨c, rest, hcons⟩ := hbody h
      rw [hcons, matches_digit_fraction] at h
      simp [isFloat, hcons, h.1, h.2]
    · obtain ⟨d, more, rfl, hd, hmore⟩ := matches_point_digit.mp h
      simp [isFloat, unsigned, hd, hmore, show isDigit '.' = false from rfl]
    · obtain ⟨c, rest, hcons⟩ := hbody h
      rw [hcons, matches_digit_groups] at h
      simp [isFloat, hcons, h.1, h.2]
    · simp only [isFloat, hinfinity.mpr h, Bool.true_or]
    · simp only [isFloat, hnan.mpr h, Bool.or_true, Bool.true_or]

end Conform.Markup.Dialect
