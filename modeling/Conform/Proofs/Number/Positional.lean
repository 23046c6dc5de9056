import Mathlib.Data.List.Induction
import Mathlib.Data.Nat.Digits.Defs
import Mathlib.Tactic.Ring
import Conform.Proofs.Number.Numeral
import Conform.Proofs.TextLines

/-!
# The numbers that digits denote

A run of digits denotes a number in each base that is larger than its digits, and groups of decimal
digits with colons between them denote one in base sixty. The reader of numerals finds these numbers
(`integer?_of_digits`, `sexagesimal?_of_groups`), and it finds none exactly if there is no digit or
if there are too many in base ten.
-/

namespace Conform.Numeral

/-! ## 1. Places -/

/-- The digits of the bases up to sixteen. -/
def hexChars : List Char := "0123456789abcdefABCDEF".toList

/-- The value of a digit of a base up to sixteen. -/
def digitValue (c : Char) : Nat :=
  "0123456789abcdef".toList.idxOf c.toLower

/-- The number that a run of digits denotes in a base. -/
def place (base : Nat) (ds : List Char) : Nat :=
  Nat.ofDigits base (ds.reverse.map digitValue)

/-- A run of digits of a base. -/
def DigitsOf (base : Nat) (ds : List Char) : Prop :=
  ∀ c ∈ ds, c ∈ hexChars ∧ digitValue c < base

theorem place_zero_cons (base : Nat) (ds : List Char) : place base ('0' :: ds) = place base ds := by
  have hzero : digitValue '0' = 0 := by decide
  rw [place, List.reverse_cons, List.map_append, Nat.ofDigits_append, List.map_singleton,
    Nat.ofDigits_singleton, hzero, Nat.mul_zero, Nat.add_zero, place]

theorem baseDigit?_of_digit {base : Nat} {c : Char} (hc : c ∈ hexChars)
    (hlt : digitValue c < base) : baseDigit? base c = some (digitValue c) := by
  have hsixteen : ∀ c ∈ hexChars, baseDigit? 16 c = some (digitValue c) :=
    forall_mem_of_all (by decide)
  have h := hsixteen c hc
  unfold baseDigit? at h ⊢
  obtain ⟨v, hv, hvalue⟩ := Option.bind_eq_some_iff.mp h
  obtain rfl : v = digitValue c := by
    split at hvalue
    · exact Option.some.inj hvalue
    · cases hvalue
  simp only [hv, Option.bind_some, if_pos hlt]

/-- The number of some digits is found from the most significant one on. -/
theorem foldl_eq_ofDigits {α : Type} [CommSemiring α] (base : Nat) (ds : List Nat) :
    (ds.map (Nat.cast : Nat → α)).foldl (fun n d => n * (base : α) + d) 0 =
      ((Nat.ofDigits base ds.reverse : Nat) : α) := by
  induction ds using List.reverseRecOn with
  | nil => simp
  | append_singleton ds d ih =>
    rw [List.map_append, List.foldl_append, ih, List.reverse_append, List.reverse_singleton,
      List.singleton_append, Nat.ofDigits_cons]
    push_cast
    simp only [List.map_singleton, List.foldl_cons, List.foldl_nil]
    ring

theorem ofDigits_eq (base : Nat) (ds : List Nat) :
    ofDigits base ds = Nat.ofDigits base ds.reverse := by
  have h := foldl_eq_ofDigits (α := Nat) base ds
  rwa [show (Nat.cast : Nat → Nat) = id from rfl, List.map_id] at h

/-! ## 2. One run of digits -/

theorem DigitsOf.mapM {base : Nat} {ds : List Char} (h : DigitsOf base ds) :
    ds.mapM (baseDigit? base) = some (ds.map digitValue) := by
  induction ds with
  | nil => rfl
  | cons c ds ih =>
    obtain ⟨hc, hds⟩ := List.forall_mem_cons.mp h
    rw [List.mapM_cons, baseDigit?_of_digit hc.1 hc.2, ih hds]
    rfl

/-- No digit is taken for the marker of the base. -/
theorem DigitsOf.dropMarker {base : Nat} {ds : List Char} (h : DigitsOf base ds) :
    dropMarker base ds = ds := by
  unfold Numeral.dropMarker
  split
  · rename_i c cs
    obtain ⟨hmem, hlt⟩ := h c (List.mem_cons_of_mem _ List.mem_cons_self)
    rw [if_neg]
    intro hmarked
    simp only [Bool.or_eq_true, Bool.and_eq_true, decide_eq_true_eq] at hmarked
    rcases hmarked with (⟨rfl, rfl | rfl⟩ | ⟨rfl, rfl | rfl⟩) | ⟨rfl, rfl | rfl⟩
    · exact absurd hlt (by decide)
    · exact absurd hlt (by decide)
    · exact absurd hmem (by decide)
    · exact absurd hmem (by decide)
    · exact absurd hmem (by decide)
    · exact absurd hmem (by decide)
  · rfl

/-- **The number of a run of digits is found**, unless there is none or there are too many. -/
theorem integer?_of_digits {base : Nat} {ds : List Char} (h : DigitsOf base ds) :
    integer? base ds = if ds = [] ∨ base = 10 ∧ digitLimit < ds.length then none
      else some (place base ds : Int) := by
  have hplain : ∀ c ∈ hexChars,
      c.toNat < 127 ∧ isPlainBlank c = false ∧ c ≠ '-' ∧ c ≠ '+' := forall_mem_of_all (by decide)
  rw [integer?_eq_natural? (fun c hc => hplain c (h c hc).1) h.dropMarker, natural?, h.mapM,
    Option.map_some, ofDigits_eq, ← List.map_reverse, ← place]
  by_cases hnone : ds = [] ∨ base = 10 ∧ digitLimit < ds.length
  · rw [if_pos hnone, if_pos (by simpa using hnone)]
    rfl
  · rw [if_neg hnone, if_neg (by simpa using hnone)]
    rfl

/-! ## 3. Groups -/

theorem splitOn_eq (separator : Char) (cs : List Char) :
    splitOn separator cs = cs.splitOn separator := by
  induction cs with
  | nil => exact (List.splitOn_nil separator).symm
  | cons c cs ih =>
    rw [splitOn, List.splitOn_cons_eq_if_modifyHead, ih]
    by_cases hc : c = separator
    · rw [if_pos hc, if_pos (beq_iff_eq.mpr hc)]
    · rw [if_neg hc, if_neg (fun h => hc (beq_iff_eq.mp h))]
      cases hsplit : cs.splitOn separator with
      | nil => exact absurd hsplit (List.splitOn_ne_nil separator cs)
      | cons p ps => rfl

/-- A decimal number is a single group. -/
theorem sexagesimal?_of_not_mem {cs : List Char} (h : ':' ∉ cs) :
    sexagesimal? cs = integer? 10 cs := by
  have hsplit := splitOn_append_of_not_mem h []
  rw [List.append_nil, List.splitOn_nil, List.modifyHead_cons, List.append_nil] at hsplit
  rw [sexagesimal?, splitOn_eq, hsplit, List.mapM_cons, List.mapM_nil]
  cases integer? 10 cs with
  | none => rfl
  | some n => exact congrArg some (Int.zero_add n)

theorem mapM_integer? {groups : List (List Char)}
    (h : ∀ ds ∈ groups, ds ≠ [] ∧ DigitsOf 10 ds) :
    groups.mapM (integer? 10) = if ∃ ds ∈ groups, digitLimit < ds.length then none
      else some ((groups.map (place 10)).map (Nat.cast : Nat → Int)) := by
  induction groups with
  | nil => rfl
  | cons ds groups ih =>
    obtain ⟨⟨hne, hds⟩, hgroups⟩ := List.forall_mem_cons.mp h
    rw [List.mapM_cons, integer?_of_digits hds, ih hgroups]
    simp only [List.mem_cons, exists_eq_or_imp, hne, true_and, false_or]
    by_cases hlong : digitLimit < ds.length
    · simp only [hlong, if_true, true_or]
      rfl
    · simp only [hlong, if_false, false_or]
      split <;> rfl

/-- **The number of groups in base sixty is found**, unless one of them has too many digits. -/
theorem sexagesimal?_of_groups {cs : List Char}
    (h : ∀ ds ∈ cs.splitOn ':', ds ≠ [] ∧ DigitsOf 10 ds) :
    sexagesimal? cs = if ∃ ds ∈ cs.splitOn ':', digitLimit < ds.length then none
      else some ((Nat.ofDigits 60 ((cs.splitOn ':').reverse.map (place 10)) : Nat) : Int) := by
  rw [sexagesimal?, splitOn_eq, mapM_integer? h]
  split
  · rfl
  · rw [Option.map_some, List.map_reverse]
    exact congrArg some (foldl_eq_ofDigits (α := Int) 60 _)

end Conform.Numeral
