import Mathlib.Algebra.Group.Nat.Defs
import Conform.Number.Double

/-!
# The range of doubles

Nothing that is read or computed leaves the range of doubles: a finite result has a significand of
at most `2 ^ 54` and an exponent of at most 971 (`bounded_numeral?`, `bounded_sumSexagesimal?`). So
an integer that equals a double has far fewer digits than can be written (`isWritable_of_value?`).
-/

namespace Conform

/-! ## 1. Rounding -/

namespace Double

/-- A finite double has a significand and an exponent that are not too large. -/
def Bounded : Double → Prop
  | .finite _ m e => m ≤ 2 ^ 54 ∧ e ≤ 971
  | _ => True

theorem bounded_zero (negative : Bool) : (zero negative).Bounded := by
  refine ⟨Nat.zero_le _, ?_⟩
  decide

theorem bounded_neg {d : Double} (h : d.Bounded) : d.neg.Bounded := by
  cases d <;> exact h

theorem bounded_withOrigin (o : Origin) {d : Double} (h : d.Bounded) :
    (d.withOrigin o).Bounded := by
  cases d <;> exact h

theorem roundQuotient_le (num den : Nat) : roundQuotient num den ≤ num / den + 1 := by
  unfold roundQuotient
  dsimp only
  split <;> omega

/-- A quotient below `2 ^ 54` is rounded to `2 ^ 54` at most. -/
theorem roundQuotient_le_of_lt {num den : Nat} (h : num < den * 2 ^ 54) :
    roundQuotient num den ≤ 2 ^ 54 := by
  have hquotient : num / den < 2 ^ 54 := Nat.div_lt_of_lt_mul h
  have hround := roundQuotient_le num den
  omega

theorem roundScaled_le {num den : Nat} {e : Int} (hden : den ≠ 0)
    (h : (num.log2 : Int) + 1 ≤ den.log2 + e + 54) : roundScaled num den e ≤ 2 ^ 54 := by
  have hnum : num < 2 ^ (num.log2 + 1) := Nat.lt_log2_self
  have hpow : 2 ^ den.log2 ≤ den := Nat.log2_self_le hden
  unfold roundScaled
  split
  · refine roundQuotient_le_of_lt ?_
    calc num < 2 ^ (num.log2 + 1) := hnum
      _ ≤ 2 ^ (den.log2 + e.toNat + 54) := Nat.pow_le_pow_right (by decide) (by omega)
      _ = 2 ^ den.log2 * 2 ^ e.toNat * 2 ^ 54 := by rw [Nat.pow_add, Nat.pow_add]
      _ ≤ den * 2 ^ e.toNat * 2 ^ 54 := Nat.mul_le_mul_right _ (Nat.mul_le_mul_right _ hpow)
  · refine roundQuotient_le_of_lt ?_
    calc num * 2 ^ (-e).toNat < 2 ^ (num.log2 + 1) * 2 ^ (-e).toNat :=
          Nat.mul_lt_mul_of_pos_right hnum (Nat.two_pow_pos _)
      _ = 2 ^ (num.log2 + 1 + (-e).toNat) := (Nat.pow_add ..).symm
      _ ≤ 2 ^ (den.log2 + 54) := Nat.pow_le_pow_right (by decide) (by omega)
      _ = 2 ^ den.log2 * 2 ^ 54 := Nat.pow_add ..
      _ ≤ den * 2 ^ 54 := Nat.mul_le_mul_right _ hpow

/-- **Rounding stays in range.** -/
theorem bounded_ofQuotient (negative : Bool) (num : Nat) {den : Nat} (hden : den ≠ 0) :
    (ofQuotient negative num den).Bounded := by
  unfold ofQuotient
  split
  · exact bounded_zero negative
  · extract_lets guess below e m
    have he : guess - 1 ≤ e := by
      simp only [e]
      split <;> omega
    have hm : m ≤ 2 ^ 54 := roundScaled_le hden (by omega)
    clear_value m e
    split
    rename_i hsettled
    split
    · exact trivial
    · split at hsettled <;> cases hsettled
      · exact ⟨by decide, by omega⟩
      · exact ⟨hm, by omega⟩

theorem bounded_ofRat (negativeZero : Bool) (q : Rat) : (ofRat negativeZero q).Bounded := by
  unfold ofRat
  split
  · exact bounded_zero negativeZero
  · exact bounded_ofQuotient _ _ q.den_nz

/-! ## 2. Reading and computing -/

theorem bounded_ofDecimal (negative : Bool) (digits : Nat) (exponent : Int) :
    (ofDecimal negative digits exponent).Bounded := by
  unfold ofDecimal
  split
  · exact bounded_zero negative
  · dsimp only
    split
    · exact trivial
    · split
      · exact bounded_zero negative
      · split
        · exact bounded_ofQuotient _ _ Nat.one_ne_zero
        · exact bounded_ofQuotient _ _ (Nat.pos_iff_ne_zero.mp (Nat.pow_pos (by decide)))

theorem bounded_fraction? {negative : Bool} {cs : List Char} {d : Double}
    (h : fraction? negative cs = some d) : d.Bounded := by
  unfold fraction? at h
  extract_lets isDigit whole rest at h
  split at h
  split at h
  · cases h
  · obtain ⟨e, -, h⟩ := Option.bind_eq_some_iff.mp h
    obtain ⟨ds, -, h⟩ := Option.bind_eq_some_iff.mp h
    cases h
    exact bounded_ofDecimal _ _ _

/-- A numeral denotes a number in range. -/
theorem bounded_numeral? {cs : List Char} {d : Double} (h : numeral? cs = some d) :
    d.Bounded := by
  unfold numeral? at h
  dsimp only at h
  split at h
  · cases h
    exact trivial
  · split at h
    · cases h
      exact trivial
    · exact bounded_fraction? h

/-- A sum is in range, because a sum of finite numbers is rounded. -/
theorem bounded_add (d d' : Double) : (add d d').Bounded := by
  unfold add
  split
  · exact trivial
  · exact trivial
  · split <;> exact trivial
  · exact trivial
  · exact trivial
  · exact bounded_ofRat _ _

/-- A sum of groups in base sixty is in range if the first summand is. -/
theorem bounded_sumSexagesimal? : ∀ {groups : List Double} {total d : Double} {weight : Nat},
    total.Bounded → sumSexagesimal? total weight groups = some d → d.Bounded
  | [], _, _, _, ht, h => by
      cases h
      exact ht
  | g :: gs, total, d, weight, _, h => by
      obtain ⟨w, -, h⟩ := Option.bind_eq_some_iff.mp h
      exact bounded_sumSexagesimal? (bounded_add total (mul g w)) h

/-! ## 3. Integers among the doubles -/

theorem natAbs_le_of_mkRat {n d : Nat} {j : Int} (hd : d ≠ 0) (h : mkRat n d = (j : Rat)) :
    j.natAbs ≤ n := by
  have hcross : (n : Int) * 1 = j * d := by
    rw [← Int.natCast_one]
    exact (Rat.mkRat_eq_iff hd Nat.one_ne_zero).mp (h.trans (Rat.mkRat_one j).symm)
  have hn : n = j.natAbs * d := by
    rw [Int.mul_one] at hcross
    rw [← Int.natAbs_natCast n, hcross, Int.natAbs_mul, Int.natAbs_natCast]
  rw [hn]
  exact Nat.le_mul_of_pos_right _ (Nat.pos_of_ne_zero hd)

/-- An integer that is the value of a double in range is not too large. -/
theorem natAbs_le_of_value? {d : Double} (h : d.Bounded) {i : Int}
    (hi : d.value? = some (i : Rat)) : ∃ k < Numeral.digitLimit, i.natAbs ≤ 2 ^ k := by
  cases d with
  | nan o => cases hi
  | infinite s => cases hi
  | finite negative m e =>
    obtain ⟨hm, he⟩ := h
    have hden : Nat.pow 2 (-e).toNat ≠ 0 := Nat.pos_iff_ne_zero.mp (Nat.two_pow_pos _)
    have hvalue : i.natAbs ≤ m * 2 ^ e.toNat := by
      simp only [value?, Option.some.injEq] at hi
      cases negative with
      | false => exact natAbs_le_of_mkRat hden hi
      | true =>
        rw [← Int.natAbs_neg]
        refine natAbs_le_of_mkRat hden ?_
        rw [Rat.intCast_neg, ← hi, if_pos rfl, Rat.neg_neg]
        rfl
    refine ⟨54 + e.toNat, ?_, ?_⟩
    · have hlimit : 54 + 971 < Numeral.digitLimit := by decide
      omega
    · calc i.natAbs ≤ m * 2 ^ e.toNat := hvalue
        _ ≤ 2 ^ 54 * 2 ^ e.toNat := Nat.mul_le_mul_right _ hm
        _ = 2 ^ (54 + e.toNat) := (Nat.pow_add ..).symm

/-- **An integer that is the value of a double in range can be written.** -/
theorem isWritable_of_value? {d : Double} (h : d.Bounded) {i : Int}
    (hi : d.value? = some (i : Rat)) : Numeral.isWritable i = true := by
  obtain ⟨k, hk, hle⟩ := natAbs_le_of_value? h hi
  unfold Numeral.isWritable
  generalize Numeral.digitLimit = n at hk ⊢
  refine decide_eq_true ?_
  calc i.natAbs ≤ 2 ^ k := hle
    _ ≤ 10 ^ k := Nat.pow_le_pow_left (by decide) k
    _ < 10 ^ n := Nat.pow_lt_pow_right (by decide) hk

end Double

end Conform
