import Conform.Base64
import Conform.Markup.Style

/-!
# Bytes come back from their letters

Writing cuts bytes into lines of 57, and every line but the last one is made of whole groups, so
padding stands only at the end. This file shows that reading undoes the writing
(`decode?_encode`), and which lines the written form consists of.
-/

namespace Conform.Base64

/-! ## 1. Letters -/

theorem bits?_letter : ∀ v < 64, bits? (letter v) = some v := by
  decide

theorem letter_ne_pad : ∀ v < 64, letter v ≠ '=' := by
  decide

/-- A letter is shown as it is and is no space. -/
theorem isShown_letter : ∀ v < 64, Markup.Style.isShown (letter v) = true ∧ letter v ≠ ' ' := by
  decide

section Group

variable {v : Nat} (hv : v < 64) (left : Nat) (cs : List Char)
include hv

theorem decodeFrom_first :
    decodeFrom {} (letter v :: cs) = decodeFrom { count := 1, left := v } cs := by
  rw [decodeFrom, if_neg (letter_ne_pad v hv), bits?_letter v hv]
  rfl

theorem decodeFrom_second : decodeFrom { count := 1, left } (letter v :: cs) =
    (decodeFrom { count := 2, left := v % 16 } cs).map
      (UInt8.ofNat (left * 4 + v / 16) :: ·) := by
  rw [decodeFrom, if_neg (letter_ne_pad v hv), bits?_letter v hv]
  rfl

theorem decodeFrom_third : decodeFrom { count := 2, left } (letter v :: cs) =
    (decodeFrom { count := 3, left := v % 4 } cs).map
      (UInt8.ofNat (left * 16 + v / 4) :: ·) := by
  rw [decodeFrom, if_neg (letter_ne_pad v hv), bits?_letter v hv]
  rfl

theorem decodeFrom_fourth : decodeFrom { count := 3, left } (letter v :: cs) =
    (decodeFrom {} cs).map (UInt8.ofNat (left * 64 + v) :: ·) := by
  rw [decodeFrom, if_neg (letter_ne_pad v hv), bits?_letter v hv]
  rfl

end Group

/-! ## 2. Groups -/

theorem ofNat_eq {a : UInt8} {n : Nat} (h : n = a.toNat) : UInt8.ofNat n = a := by
  rw [h, UInt8.ofNat_toNat]

/-- Letters are read as the bytes they are made of. What stands behind them is read if they end with
    a whole group, else padding has ended the text. -/
theorem decodeFrom_letters : ∀ (bytes : List UInt8) (rest : List Char),
    decodeFrom {} (letters bytes ++ rest) =
      if bytes.length % 3 = 0 then (decodeFrom {} rest).map (bytes ++ ·) else some bytes
  | [], rest => by
      cases h : decodeFrom {} rest <;> simp [letters, h]
  | [a], rest => by
      have ha := a.toNat_lt
      have hpads : ∀ left, decodeFrom { count := 2, left } ('=' :: '=' :: rest) = some [] := by
        intro left
        simp [decodeFrom]
      rw [letters]
      simp only [List.cons_append, List.nil_append]
      rw [decodeFrom_first (by omega), decodeFrom_second (by omega), hpads]
      simp only [Option.map_some, List.length_singleton]
      rw [ofNat_eq (a := a) (by omega)]
      rfl
  | [a, b], rest => by
      have ha := a.toNat_lt
      have hb := b.toNat_lt
      have hpad : ∀ left, decodeFrom { count := 3, left } ('=' :: rest) = some [] := by
        intro left
        simp [decodeFrom]
      rw [letters]
      simp only [List.cons_append, List.nil_append]
      rw [decodeFrom_first (by omega), decodeFrom_second (by omega), decodeFrom_third (by omega), hpad]
      simp only [Option.map_some]
      rw [ofNat_eq (a := a) (by omega), ofNat_eq (a := b) (by omega)]
      rfl
  | a :: b :: c :: more, rest => by
      have ha := a.toNat_lt
      have hb := b.toNat_lt
      have hc := c.toNat_lt
      have hlength : (a :: b :: c :: more).length % 3 = more.length % 3 := by
        simp only [List.length_cons]
        omega
      rw [letters]
      simp only [List.cons_append]
      rw [decodeFrom_first (by omega), decodeFrom_second (by omega), decodeFrom_third (by omega),
        decodeFrom_fourth (by omega), decodeFrom_letters more rest, hlength,
        ofNat_eq (a := a) (by omega), ofNat_eq (a := b) (by omega), ofNat_eq (a := c) (by omega)]
      split
      · cases decodeFrom {} rest <;> rfl
      · rfl

/-! ## 3. Lines -/

/-- The lines of the written form, without their ends. -/
def chunks : Nat → List UInt8 → List (List Char)
  | 0, _ => []
  | n + 1, bytes => if bytes.isEmpty then [] else letters (bytes.take 57) :: chunks n (bytes.drop 57)

theorem lines_eq : ∀ (n : Nat) (bytes : List UInt8),
    lines n bytes = (chunks n bytes).flatMap fun l => l ++ ['\n']
  | 0, _ => rfl
  | n + 1, bytes => by
      rw [lines, chunks]
      split
      · rfl
      · rw [lines_eq n, List.flatMap_cons]

theorem decodeFrom_lines : ∀ (n : Nat) (bytes : List UInt8), bytes.length ≤ n →
    decodeFrom {} (lines n bytes) = some bytes
  | 0, bytes => fun h => by
      rw [List.length_eq_zero_iff.mp (Nat.le_zero.mp h)]
      rfl
  | n + 1, bytes => fun h => by
      rw [lines]
      cases bytes with
      | nil => rfl
      | cons a more =>
        have hfeed : ∀ rest, decodeFrom {} ('\n' :: rest) = decodeFrom {} rest := by
          intro rest
          rw [decodeFrom, if_neg (by decide)]
          rfl
        have hdrop : ((a :: more).drop 57).length ≤ n := by
          rw [List.length_drop]
          omega
        rw [List.isEmpty_cons, if_neg Bool.false_ne_true, List.append_assoc, decodeFrom_letters,
          List.singleton_append, hfeed, decodeFrom_lines n _ hdrop]
        rcases Nat.lt_or_ge (a :: more).length 57 with hlt | hge
        · rw [List.take_of_length_le (Nat.le_of_lt hlt), List.drop_eq_nil_of_le (Nat.le_of_lt hlt)]
          split <;> simp
        · rw [List.length_take, Nat.min_eq_left hge, if_pos rfl]
          simp

/-- **Bytes come back** from their written form. -/
theorem decode?_encode (bytes : List UInt8) : decode? (encode bytes) = some bytes :=
  decodeFrom_lines bytes.length bytes (Nat.le_refl _)

/-- What the letters of some bytes are. -/
theorem mem_letters : ∀ {bytes : List UInt8} {c : Char}, c ∈ letters bytes →
    c = '=' ∨ ∃ v < 64, c = letter v
  | [], _ => fun h => absurd h List.not_mem_nil
  | [a], c => fun h => by
      have ha := a.toNat_lt
      simp only [letters, List.mem_cons, List.not_mem_nil, or_false] at h
      rcases h with rfl | rfl | rfl | rfl
      · exact .inr ⟨_, by omega, rfl⟩
      · exact .inr ⟨_, by omega, rfl⟩
      · exact .inl rfl
      · exact .inl rfl
  | [a, b], c => fun h => by
      have ha := a.toNat_lt
      have hb := b.toNat_lt
      simp only [letters, List.mem_cons, List.not_mem_nil, or_false] at h
      rcases h with rfl | rfl | rfl | rfl
      · exact .inr ⟨_, by omega, rfl⟩
      · exact .inr ⟨_, by omega, rfl⟩
      · exact .inr ⟨_, by omega, rfl⟩
      · exact .inl rfl
  | a :: b :: d :: more, c => fun h => by
      have ha := a.toNat_lt
      have hb := b.toNat_lt
      have hd := d.toNat_lt
      simp only [letters, List.mem_cons] at h
      rcases h with rfl | rfl | rfl | rfl | h
      · exact .inr ⟨_, by omega, rfl⟩
      · exact .inr ⟨_, by omega, rfl⟩
      · exact .inr ⟨_, by omega, rfl⟩
      · exact .inr ⟨_, by omega, rfl⟩
      · exact mem_letters h

theorem isShown_of_mem_letters {bytes : List UInt8} {c : Char} (h : c ∈ letters bytes) :
    Markup.Style.isShown c = true ∧ c ≠ ' ' := by
  rcases mem_letters h with rfl | ⟨v, hv, rfl⟩
  · exact ⟨by decide, by decide⟩
  · exact isShown_letter v hv

theorem ascii_letter : ∀ v < 64, (letter v).toNat < 128 := by
  decide

theorem ascii_lines : ∀ {n : Nat} {bytes : List UInt8} {c : Char}, c ∈ lines n bytes →
    c.toNat < 128
  | 0, _, _ => fun h => absurd h List.not_mem_nil
  | n + 1, bytes, c => fun h => by
      rw [lines] at h
      split at h
      · exact absurd h List.not_mem_nil
      · rcases List.mem_append.mp h with h | h
        · rcases List.mem_append.mp h with h | h
          · rcases mem_letters h with rfl | ⟨v, hv, rfl⟩
            · decide
            · exact ascii_letter v hv
          · rw [List.mem_singleton.mp h]
            decide
        · exact ascii_lines h

theorem letters_ne_nil {bytes : List UInt8} (h : bytes ≠ []) : letters bytes ≠ [] := by
  obtain ⟨a, more, rfl⟩ := List.exists_cons_of_ne_nil h
  match more with
  | [] => simp [letters]
  | [b] => simp [letters]
  | b :: c :: rest => simp [letters]

/-- A line is not empty, and its characters are shown as they are and no spaces. -/
theorem of_mem_chunks : ∀ {n : Nat} {bytes : List UInt8} {l : List Char}, l ∈ chunks n bytes →
    l ≠ [] ∧ ∀ c ∈ l, Markup.Style.isShown c = true ∧ c ≠ ' '
  | 0, _, _ => fun h => absurd h List.not_mem_nil
  | n + 1, bytes, l => fun h => by
      rw [chunks] at h
      cases bytes with
      | nil => exact absurd h List.not_mem_nil
      | cons a more =>
        rw [List.isEmpty_cons, if_neg Bool.false_ne_true] at h
        rcases List.mem_cons.mp h with rfl | h
        · exact ⟨letters_ne_nil (by simp), fun c hc => isShown_of_mem_letters hc⟩
        · exact of_mem_chunks h

end Conform.Base64
