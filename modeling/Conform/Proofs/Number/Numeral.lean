import Mathlib.Algebra.Group.Nat.Defs
import Conform.Markup.Pattern
import Conform.Number.Numeral

/-!
# Decimal numerals are read as they were written

The decimal digits of a number, with or without zeros in front, make the number again, and so does
the decimal form of an integer (`integer?_decimalDigits`). What a reader needs to know about digits
is that they are ten characters; every class of characters is decided on those.
-/

namespace Conform

open Markup.Pattern

/-! ## 1. Digits -/

/-- What is decided for every member of a list. Said of characters, `decide` would go through all of
    them. -/
theorem forall_mem_of_all {α : Type} {P : α → Prop} [DecidablePred P] {l : List α}
    (h : (l.all fun a => decide (P a)) = true) : ∀ a ∈ l, P a :=
  fun a ha => of_decide_eq_true (List.all_eq_true.mp h a ha)

/-- The digits. -/
def digitChars : List Char := "0123456789".toList

theorem isDigit_iff {c : Char} : isDigit c = true ↔ c ∈ digitChars := by
  constructor
  · intro h
    simp only [isDigit, Bool.and_eq_true, decide_eq_true_eq] at h
    have hc : c = Char.ofNat c.toNat := (Char.ofNat_toNat c).symm
    have hall : ∀ n < 58, 48 ≤ n → Char.ofNat n ∈ digitChars := by decide
    rw [hc]
    exact hall c.toNat (by omega) h.1
  · have hall : ∀ c ∈ digitChars, isDigit c = true := List.all_eq_true.mp (by decide)
    exact hall c

/-- A property of characters that the ten digits have. -/
theorem forall_isDigit {P : Char → Prop} [DecidablePred P]
    (h : (digitChars.all fun c => decide (P c)) = true) {c : Char} (hc : isDigit c = true) : P c :=
  forall_mem_of_all h c (isDigit_iff.mp hc)

theorem isDigit_of_mem_decimalDigits {n : Nat} {c : Char} (h : c ∈ decimalDigits n) :
    isDigit c = true := by
  have hc := Nat.isDigit_of_mem_toDigits (by decide) (by decide) h
  simp only [Char.isDigit, Bool.and_eq_true, decide_eq_true_eq] at hc
  simp only [isDigit, Bool.and_eq_true, decide_eq_true_eq]
  exact hc

theorem isDigit_of_mem_paddedDigits {w n : Nat} {c : Char} (h : c ∈ paddedDigits w n) :
    isDigit c = true := by
  rcases List.mem_append.mp h with h | h
  · rw [(List.mem_replicate.mp h).2]
    decide
  · exact isDigit_of_mem_decimalDigits h

theorem decimalDigits_ne_nil (n : Nat) : decimalDigits n ≠ [] :=
  Nat.toDigits_ne_nil

theorem length_paddedDigits {w n : Nat} (hw : 0 < w) (h : n < 10 ^ w) :
    (paddedDigits w n).length = w := by
  have hle : (decimalDigits n).length ≤ w := (Nat.length_toDigits_le_iff (by decide) hw).mpr h
  rw [paddedDigits]
  simp only [List.length_append, List.length_replicate]
  omega

/-- Only zero starts with a zero. -/
theorem decimalDigits_cases (n : Nat) : (n = 0 ∧ decimalDigits n = ['0']) ∨
    ∃ c ds, decimalDigits n = c :: ds ∧ c ≠ '0' := by
  induction n using Nat.strongRecOn with
  | ind n ih =>
    by_cases hsmall : n < 10
    · have hone : decimalDigits n = [n.digitChar] := Nat.toDigits_of_lt_base hsmall
      by_cases hzero : n = 0
      · exact .inl ⟨hzero, by rw [hzero]; rfl⟩
      · exact .inr ⟨_, [], hone, fun h => hzero (Nat.digitChar_eq_zero.mp h)⟩
    · have happend : decimalDigits n = decimalDigits (n / 10) ++ [(n % 10).digitChar] :=
        Nat.toDigits_of_base_le (by decide) (by omega)
      rcases ih (n / 10) (by omega) with ⟨hzero, -⟩ | ⟨c, ds, hcons, hc⟩
      · omega
      · exact .inr ⟨c, ds ++ [(n % 10).digitChar], by rw [happend, hcons]; rfl, hc⟩

/-! ## 2. The number of some digits -/

/-- The number that some digits make. -/
def digitsValue (cs : List Char) : Nat :=
  Numeral.ofDigits 10 (cs.map fun c => c.toNat - 48)

theorem digitsValue_append_singleton (cs : List Char) (c : Char) :
    digitsValue (cs ++ [c]) = digitsValue cs * 10 + (c.toNat - 48) := by
  simp [digitsValue, Numeral.ofDigits]

theorem digitsValue_zeros (k : Nat) (cs : List Char) :
    digitsValue (List.replicate k '0' ++ cs) = digitsValue cs := by
  induction k with
  | zero => rfl
  | succ k ih => exact ih

theorem digitsValue_decimalDigits (n : Nat) : digitsValue (decimalDigits n) = n := by
  induction n using Nat.strongRecOn with
  | ind n ih =>
    by_cases hsmall : n < 10
    · have hone : decimalDigits n = [n.digitChar] := Nat.toDigits_of_lt_base hsmall
      rw [hone, digitsValue, Numeral.ofDigits]
      simp [Nat.toNat_digitChar_sub_48_of_lt_ten hsmall]
    · have happend : decimalDigits n = decimalDigits (n / 10) ++ [(n % 10).digitChar] :=
        Nat.toDigits_of_base_le (by decide) (by omega)
      rw [happend, digitsValue_append_singleton, ih (n / 10) (by omega),
        Nat.toNat_digitChar_sub_48_of_lt_ten (Nat.mod_lt n (by decide))]
      omega

theorem digitsValue_paddedDigits (w n : Nat) : digitsValue (paddedDigits w n) = n := by
  rw [paddedDigits]
  exact (digitsValue_zeros _ _).trans (digitsValue_decimalDigits n)

/-! ## 3. Reading numerals -/

theorem mapM_baseDigit? : ∀ {cs : List Char}, (∀ c ∈ cs, isDigit c = true) →
    cs.mapM (baseDigit? 10) = some (cs.map fun c => c.toNat - 48)
  | [], _ => rfl
  | c :: cs, h => by
      obtain ⟨hc, hcs⟩ := List.forall_mem_cons.mp h
      have hdigit : baseDigit? 10 c = some (c.toNat - 48) :=
        forall_isDigit (P := fun c => baseDigit? 10 c = some (c.toNat - 48)) (by decide) hc
      rw [List.mapM_cons, hdigit, mapM_baseDigit? hcs]
      rfl

theorem trimChars_of_none {p : Char → Bool} {cs : List Char} (h : ∀ c ∈ cs, p c = false) :
    trimChars p cs = cs := by
  have hdrop : ∀ {xs : List Char}, (∀ c ∈ xs, p c = false) → xs.dropWhile p = xs := by
    intro xs hxs
    cases xs with
    | nil => rfl
    | cons x xs => rw [List.dropWhile_cons, hxs x List.mem_cons_self, if_neg Bool.false_ne_true]
  rw [trimChars, hdrop h, hdrop fun c hc => h c (List.mem_reverse.mp hc), List.reverse_reverse]

theorem length_decimalDigits_le {i : Int} (h : Numeral.isWritable i = true) :
    (decimalDigits i.natAbs).length ≤ Numeral.digitLimit := by
  have hpos : 0 < Numeral.digitLimit := by decide
  unfold Numeral.isWritable at h
  generalize Numeral.digitLimit = k at h hpos ⊢
  exact (Nat.length_toDigits_le_iff (by decide) hpos).mpr (of_decide_eq_true h)

/-- A numeral of plain characters with no sign and no marker of its base is read digit by digit. -/
theorem integer?_eq_natural? {base : Nat} {cs : List Char}
    (h : ∀ c ∈ cs, c.toNat < 127 ∧ isPlainBlank c = false ∧ c ≠ '-' ∧ c ≠ '+')
    (hmarker : Numeral.dropMarker base cs = cs) :
    Numeral.integer? base cs = (Numeral.natural? base cs).map fun n => (n : Int) := by
  have hplain : Numeral.plain cs = cs :=
    (List.map_congr_left fun c hc => if_pos (h c hc).1).trans (List.map_id' _)
  have htrim : trimChars isPlainBlank cs = cs := trimChars_of_none fun c hc => (h c hc).2.1
  have hsign : Numeral.splitSign cs = (false, cs) := by
    unfold Numeral.splitSign
    split
    · exact absurd rfl (h _ List.mem_cons_self).2.2.1
    · exact absurd rfl (h _ List.mem_cons_self).2.2.2
    · rfl
  rw [Numeral.integer?, hplain, htrim, hsign]
  simp only [hmarker, Bool.false_eq_true, if_false]

/-- **A decimal number of at most as many digits as are read is read.** -/
theorem integer?_decimalDigits {n : Nat} (h : (decimalDigits n).length ≤ Numeral.digitLimit) :
    Numeral.integer? 10 (decimalDigits n) = some (n : Int) := by
  have hdigits : ∀ c ∈ decimalDigits n, isDigit c = true :=
    fun c hc => isDigit_of_mem_decimalDigits hc
  have hmarker : Numeral.dropMarker 10 (decimalDigits n) = decimalDigits n := by
    unfold Numeral.dropMarker
    split <;> simp_all
  have hnatural : Numeral.natural? 10 (decimalDigits n) = some n := by
    rw [Numeral.natural?, mapM_baseDigit? hdigits, if_neg]
    · exact congrArg some (digitsValue_decimalDigits n)
    · simp [decimalDigits_ne_nil n, h]
  rw [integer?_eq_natural? (fun c hc => ?_) hmarker, hnatural]
  · rfl
  · exact forall_isDigit
      (P := fun c => c.toNat < 127 ∧ isPlainBlank c = false ∧ c ≠ '-' ∧ c ≠ '+') (by decide)
      (hdigits c hc)

/-- Digits in front of something else are read as their number. -/
theorem number?_digits {least most : Nat} {ds rest : List Char} (h : ∀ c ∈ ds, isDigit c = true)
    (hrest : ∀ c ∈ rest.head?, isDigit c = false) (hleast : least ≤ ds.length)
    (hmost : ds.length ≤ most) :
    number? least most (ds ++ rest) = some (digitsValue ds, rest) := by
  have htake : (ds ++ rest).takeWhile isDigit = ds ∧ (ds ++ rest).dropWhile isDigit = rest := by
    rw [List.takeWhile_append_of_pos h, List.dropWhile_append_of_pos h]
    cases rest with
    | nil => simp
    | cons c cs => simp [hrest c rfl]
  rw [number?, htake.1, htake.2]
  simp only [hleast, hmost, decide_true, Bool.and_self, if_true]
  rfl

theorem number?_padded (least most w : Nat) {n : Nat} {rest : List Char}
    (hw : 0 < w ∧ least ≤ w ∧ w ≤ most) (hn : n < 10 ^ w)
    (hrest : ∀ c ∈ rest.head?, isDigit c = false) :
    number? least most (paddedDigits w n ++ rest) = some (n, rest) := by
  have hlength := length_paddedDigits hw.1 hn
  rw [number?_digits (fun c hc => isDigit_of_mem_paddedDigits hc) hrest (by omega) (by omega),
    digitsValue_paddedDigits]

end Conform
