import Mathlib.Algebra.Group.Nat.Defs
import Conform.Markup.Pen
import Conform.Markup.Scalar.Quoted
import Conform.Proofs.Markup.Places

/-!
# Escapes are read as they were written

Every code point has an escape, by a letter or by two, four or eight hexadecimal digits, and the
reader takes the escape back to that code point (`readDoubleFrom_escape`). This includes the
surrogates, which no file holds as they are.
-/

namespace Conform

/-! ## 1. Code points by number -/

namespace CodePoint

theorem toNat_lt (p : CodePoint) : p.toNat < 0x110000 := by
  cases p with
  | char c =>
    have h : c.toNat < 0xD800 ∨ (0xDFFF < c.toNat ∧ c.toNat < 0x110000) := c.valid
    rw [toNat]
    omega
  | surrogate s =>
    rw [toNat]
    omega

theorem ofNat?_toNat (p : CodePoint) : ofNat? p.toNat = some p := by
  cases p with
  | char c =>
    have h : c.toNat < 0xD800 ∨ (0xDFFF < c.toNat ∧ c.toNat < 0x110000) := c.valid
    have hrange : ¬ (0xD800 ≤ c.toNat ∧ c.toNat < 0xE000) := by omega
    have hvalid : c.toNat.isValidChar := h
    rw [toNat, ofNat?, dif_neg hrange, dif_pos hvalid]
    rfl
  | surrogate s =>
    have hrange : 0xD800 ≤ 0xD800 + s.val ∧ 0xD800 + s.val < 0xE000 := by omega
    rw [toNat, ofNat?, dif_pos hrange]
    simp

/-- A character is the only code point with its number. -/
theorem eq_char_of_toNat {p : CodePoint} {c : Char} (h : p.toNat = c.toNat) : p = .char c := by
  have hp := ofNat?_toNat p
  rw [h] at hp
  have hc : ofNat? c.toNat = some (.char c) := ofNat?_toNat (.char c)
  exact Option.some.inj (hp.symm.trans hc)

end CodePoint

namespace Markup

/-! ## 2. Hexadecimal digits -/

theorem baseDigit?_upperDigit : ∀ v < 16, baseDigit? 16 (upperDigit v) = some v := by
  decide

/-- The lowest digits of a number are read as what they make. -/
theorem read_hexDigits : ∀ (w n : Nat), ∃ ds,
    (hexDigits upperDigit n w).mapM (baseDigit? 16) = some ds ∧
      ds.foldl (fun m d => m * 16 + d) 0 = n % 16 ^ w
  | 0, n => ⟨[], rfl, by simp [Nat.mod_one]⟩
  | w + 1, n => by
      obtain ⟨ds, hread, hvalue⟩ := read_hexDigits w (n / 16)
      refine ⟨ds ++ [n % 16], ?_, ?_⟩
      · rw [hexDigits, List.mapM_append, hread]
        simp [baseDigit?_upperDigit (n % 16) (Nat.mod_lt n (by decide))]
      · rw [List.foldl_append, hvalue, Nat.pow_succ', Nat.mod_mul]
        simp only [List.foldl_cons, List.foldl_nil]
        omega

theorem length_hexDigits (digit : Nat → Char) : ∀ (w n : Nat), (hexDigits digit n w).length = w
  | 0, _ => rfl
  | w + 1, n => by rw [hexDigits, List.length_append, length_hexDigits digit w]; rfl

theorem numericEscape_hexDigits {p : CodePoint} {w : Nat} (h : p.toNat < 16 ^ w) :
    numericEscape (hexDigits upperDigit p.toNat w) = .ok p := by
  obtain ⟨ds, hread, hvalue⟩ := read_hexDigits w p.toNat
  rw [Nat.mod_eq_of_lt h] at hvalue
  simp only [numericEscape, hread, hvalue, CodePoint.ofNat?_toNat]

theorem isSome_of_mem_hexDigits : ∀ {w n : Nat} {c : Char}, c ∈ hexDigits upperDigit n w →
    (baseDigit? 16 c).isSome = true
  | 0, _, _ => fun h => absurd h List.not_mem_nil
  | w + 1, n, c => fun h => by
      rcases List.mem_append.mp h with h | h
      · exact isSome_of_mem_hexDigits h
      · rw [List.mem_singleton.mp h, baseDigit?_upperDigit _ (Nat.mod_lt n (by decide))]
        rfl

/-- The digits of an escape are taken one by one. -/
theorem readDoubleFrom_digits {q : CodePoint} {rest : List Char} {reversed : Text} :
    ∀ {ds digits : List Char} {gap : Gap} (p : Place), ds ≠ [] →
    (∀ c ∈ ds, (baseDigit? 16 c).isSome = true) → numericEscape (digits.reverse ++ ds) = .ok q →
    readDoubleFrom ds.length digits gap reversed (ds ++ rest) p =
      readDoubleFrom 0 [] .none (q :: reversed) rest (p.after ds)
  | [], _, _, _ => fun h => absurd rfl h
  | c :: ds, digits, gap, p => fun _ hds hq => by
      obtain ⟨hc, hds⟩ := List.forall_mem_cons.mp hds
      have hnot : ¬ (baseDigit? 16 c).isNone = true := by
        simpa [Option.isNone_iff_eq_none, Option.isSome_iff_ne_none] using hc
      rw [List.length_cons, List.cons_append, readDoubleFrom]
      simp only [if_neg hnot]
      cases ds with
      | nil =>
        have hq' : numericEscape (c :: digits).reverse = .ok q := by
          rw [List.reverse_cons]
          exact hq
        rw [List.length_nil, if_pos rfl, hq']
        rfl
      | cons d ds =>
        have hmore : ¬ (d :: ds).length = 0 := Nat.succ_ne_zero _
        rw [if_neg hmore, readDoubleFrom_digits (p.next c) (List.cons_ne_nil d ds) hds]
        · rfl
        · rw [List.reverse_cons, List.append_assoc]
          exact hq

/-! ## 3. Behind a backslash -/

section Backslash

variable {e : Char} {digits : List Char} {gap : Gap} {reversed : Text} {rest : List Char} {p : Place}

theorem readDoubleFrom_letter {l : Char} (h : letterEscape? e = some l) :
    readDoubleFrom 0 digits gap reversed ('\\' :: e :: rest) p =
      readDoubleFrom 0 [] .none (.char l :: ((Text.ofChars gap.folded).reverse ++ reversed)) rest
        ((p.next '\\').next e) := by
  rw [readDoubleFrom]
  simp only [show ¬ '\\' = '"' by decide, show isSpacing '\\' = false by decide,
    show isBreak '\\' = false by decide, h, Bool.false_eq_true, if_false, if_true]

theorem readDoubleFrom_width {width : Nat} (hletter : letterEscape? e = none)
    (hwidth : escapeWidth? e = some width) :
    readDoubleFrom 0 digits gap reversed ('\\' :: e :: rest) p =
      readDoubleFrom width [] .none ((Text.ofChars gap.folded).reverse ++ reversed) rest
        ((p.next '\\').next e) := by
  rw [readDoubleFrom]
  simp only [show ¬ '\\' = '"' by decide, show isSpacing '\\' = false by decide,
    show isBreak '\\' = false by decide, hletter, hwidth, Bool.false_eq_true, if_false, if_true]

/-- A backslash hides the break behind it, whichever that is, and stands in front of nothing else. -/
theorem readDoubleFrom_hides (hletter : letterEscape? e = none) (hwidth : escapeWidth? e = none) :
    readDoubleFrom 0 digits gap reversed ('\\' :: e :: rest) p =
      let rest := if isHalfBreak e rest then rest.drop 1 else rest
      if isBreak e then
        if startsMarker rest then .error .malformed
        else readDoubleFrom 0 [] (.breaks none []) ((Text.ofChars gap.folded).reverse ++ reversed)
          rest ((p.next '\\').next e)
      else .error .malformed := by
  rw [readDoubleFrom]
  simp only [show ¬ '\\' = '"' by decide, show isSpacing '\\' = false by decide,
    show isBreak '\\' = false by decide, hletter, hwidth, Bool.false_eq_true, if_false, if_true]
  split
  · split
    · rfl
    · rename_i hpair
      have hhalf : isHalfBreak e rest = false := Bool.eq_false_iff.mpr fun h => by
        obtain ⟨he, more, hrest⟩ := isHalfBreak_iff.mp h
        exact hpair more he hrest
      rw [hhalf, if_neg Bool.false_ne_true]
  · rfl

end Backslash

/-! ## 4. Escapes -/

/-- A letter that is written for a code point stands for it. -/
theorem letterEscape?_of_escapeLetter? {p : CodePoint} {l : Char} (h : escapeLetter? p = some l) :
    ∃ c, letterEscape? l = some c ∧ p = .char c := by
  unfold escapeLetter? at h
  split at h <;> cases h <;> rename_i hp <;>
    exact ⟨_, rfl, CodePoint.eq_char_of_toNat hp⟩

/-- An escape between double quotes is read as its code point. -/
theorem readDoubleFrom_escape (q : CodePoint) (gap : Gap) (reversed : Text) (rest : List Char)
    (p : Place) : readDoubleFrom 0 [] gap reversed (escape q ++ rest) p =
      readDoubleFrom 0 [] .none (q :: ((Text.ofChars gap.folded).reverse ++ reversed)) rest
        (p.after (escape q)) := by
  have numeric : ∀ (mark : Char) (w : Nat), letterEscape? mark = none →
      escapeWidth? mark = some (w + 1) → q.toNat < 16 ^ (w + 1) →
      readDoubleFrom 0 [] gap reversed
          ('\\' :: mark :: hexDigits upperDigit q.toNat (w + 1) ++ rest) p =
        readDoubleFrom 0 [] .none (q :: ((Text.ofChars gap.folded).reverse ++ reversed)) rest
          (p.after ('\\' :: mark :: hexDigits upperDigit q.toNat (w + 1))) := by
    intro mark w hletter hwidth hlt
    have hlength := length_hexDigits upperDigit (w + 1) q.toNat
    have hne : hexDigits upperDigit q.toNat (w + 1) ≠ [] := by
      intro h
      rw [h] at hlength
      cases hlength
    rw [List.cons_append, List.cons_append, readDoubleFrom_width hletter hwidth]
    have hdigits := @readDoubleFrom_digits q rest ((Text.ofChars gap.folded).reverse ++ reversed)
      (hexDigits upperDigit q.toNat (w + 1)) [] .none ((p.next '\\').next mark) hne
      (fun c hc => isSome_of_mem_hexDigits hc) (numericEscape_hexDigits hlt)
    rw [hlength] at hdigits
    exact hdigits
  unfold escape
  split
  · rename_i l hl
    obtain ⟨c, hc, rfl⟩ := letterEscape?_of_escapeLetter? hl
    exact readDoubleFrom_letter hc
  · dsimp only
    split
    · exact numeric 'x' 1 rfl rfl (by omega)
    · split
      · exact numeric 'u' 3 rfl rfl (by omega)
      · exact numeric 'U' 7 rfl rfl (Nat.lt_trans q.toNat_lt (by decide))

end Markup

end Conform
