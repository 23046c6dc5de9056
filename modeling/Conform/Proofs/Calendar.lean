import Mathlib.Tactic.IntervalCases
import Mathlib.Tactic.SplitIfs
import Conform.Calendar

/-!
# Counting days and microseconds

The years follow on each other without a gap, and so do the months of a year. So the number of a day
determines the day (`Day.ordinal_injective`), and the microseconds of a local time determine the day
and the time of day (`Moment.localMicros_inj`).
-/

namespace Conform

/-! ## 1. Spans that follow on each other -/

section Spans

variable {start length : Nat → Nat} {last i j : Nat}

/-- A span ends before every later one starts. -/
theorem end_le_start (hnext : ∀ i, 1 ≤ i → i < last → start (i + 1) = start i + length i)
    (hi : 1 ≤ i) (hij : i < j) (hj : j ≤ last) : start i + length i ≤ start j := by
  induction j, hij using Nat.le_induction with
  | base => exact (hnext i hi hj).ge
  | succ j hij ih =>
    have hstep := hnext j (by omega) (by omega)
    have hbefore := ih (by omega)
    omega

/-- A position in one of the spans determines the span, and the place in it. -/
theorem eq_of_position (hnext : ∀ i, 1 ≤ i → i < last → start (i + 1) = start i + length i)
    (hi : 1 ≤ i ∧ i ≤ last) (hj : 1 ≤ j ∧ j ≤ last) {a b : Nat} (ha : 1 ≤ a ∧ a ≤ length i)
    (hb : 1 ≤ b ∧ b ≤ length j) (h : start i + a = start j + b) : i = j ∧ a = b := by
  rcases Nat.lt_trichotomy i j with hlt | rfl | hlt
  · have := end_le_start hnext hi.1 hlt hj.2
    omega
  · exact ⟨rfl, by omega⟩
  · have := end_le_start hnext hj.1 hlt hi.2
    omega

end Spans

/-! ## 2. Days -/

/-- The days before a year. -/
def daysBeforeYear (year : Nat) : Nat :=
  (year - 1) * 365 + (year - 1) / 4 - (year - 1) / 100 + (year - 1) / 400

/-- How many days a year has. -/
def daysInYear (year : Nat) : Nat :=
  if isLeapYear year then 366 else 365

/-- The days of a year before a month. -/
def daysBeforeMonthIn (year month : Nat) : Nat :=
  Day.daysBeforeMonth month + if 2 < month && isLeapYear year then 1 else 0

theorem isLeapYear_iff {year : Nat} :
    isLeapYear year = true ↔ 4 ∣ year ∧ (¬ 100 ∣ year ∨ 400 ∣ year) := by
  simp [isLeapYear, Nat.dvd_iff_mod_eq_zero]

/-- **A year starts where the one before it ends.** -/
theorem daysBeforeYear_succ {year : Nat} (h : 1 ≤ year) :
    daysBeforeYear (year + 1) = daysBeforeYear year + daysInYear year := by
  obtain ⟨past, rfl⟩ := Nat.exists_eq_add_of_le' h
  have hleap : past / 100 ≤ past / 4 := Nat.div_le_div_left (by decide) (by decide)
  simp only [daysBeforeYear, daysInYear, isLeapYear_iff, Nat.add_sub_cancel, Nat.succ_div]
  -- each quotient grows by one exactly if the year is divided by its divisor
  generalize past / 4 = q, past / 100 = q', past / 400 = q'' at hleap ⊢
  split_ifs <;> omega

/-- **A month starts where the one before it ends.** -/
theorem daysBeforeMonthIn_succ (year : Nat) {month : Nat} (h : 1 ≤ month) (h' : month < 12) :
    daysBeforeMonthIn year (month + 1) = daysBeforeMonthIn year month + daysInMonth year month := by
  unfold daysBeforeMonthIn daysInMonth
  cases isLeapYear year <;> interval_cases month <;> rfl

theorem daysBeforeMonthIn_december (year : Nat) :
    daysBeforeMonthIn year 12 + daysInMonth year 12 = daysInYear year := by
  unfold daysBeforeMonthIn daysInMonth daysInYear
  cases isLeapYear year <;> rfl

namespace Day

theorem month_bounds (d : Day) : 1 ≤ d.month ∧ d.month ≤ 12 := by
  obtain ⟨-, -, hday, hdays⟩ := d.valid
  by_contra hno
  have hnone : daysInMonth d.year d.month = 0 := by
    unfold daysInMonth
    split <;> first | rfl | omega
  omega

/-- The number of a day in its year. -/
def ofYear (d : Day) : Nat :=
  daysBeforeMonthIn d.year d.month + d.day

theorem ordinal_eq (d : Day) : d.ordinal = daysBeforeYear d.year + d.ofYear := by
  simp only [ordinal, daysBeforeYear, ofYear, daysBeforeMonthIn]
  omega

theorem ofYear_bounds (d : Day) : 1 ≤ d.ofYear ∧ d.ofYear ≤ daysInYear d.year := by
  obtain ⟨-, -, hday, hdays⟩ := d.valid
  obtain ⟨hm, hm'⟩ := d.month_bounds
  have hdecember := daysBeforeMonthIn_december d.year
  have hend : daysBeforeMonthIn d.year d.month + daysInMonth d.year d.month ≤
      daysInYear d.year := by
    rcases Nat.lt_or_eq_of_le hm' with hlt | heq
    · have := end_le_start (fun _ => daysBeforeMonthIn_succ d.year) hm hlt (Nat.le_refl 12)
      omega
    · rw [heq]
      exact hdecember.le
  unfold ofYear
  omega

/-- **The number of a day determines the day.** -/
theorem ordinal_injective : Function.Injective ordinal := by
  intro d d' h
  rw [ordinal_eq, ordinal_eq] at h
  obtain ⟨hy, hy', hday, hdays⟩ := d.valid
  obtain ⟨hz, hz', hday', hdays'⟩ := d'.valid
  obtain ⟨hyear, hof⟩ := eq_of_position (fun _ hi _ => daysBeforeYear_succ hi) ⟨hy, hy'⟩ ⟨hz, hz'⟩
    d.ofYear_bounds d'.ofYear_bounds h
  unfold ofYear at hof
  rw [hyear] at hof hdays
  obtain ⟨hmonth, hsame⟩ := eq_of_position (fun _ => daysBeforeMonthIn_succ d'.year) d.month_bounds
    d'.month_bounds ⟨hday, hdays⟩ ⟨hday', hdays'⟩ hof
  cases d
  cases d'
  cases hyear
  cases hmonth
  cases hsame
  rfl

end Day

/-! ## 3. Local times -/

/-- **The microseconds of a local time determine the day and the time of day.** -/
theorem Moment.localMicros_inj {t u : Moment} :
    t.localMicros = u.localMicros ↔ t.day = u.day ∧ t.clock = u.clock := by
  constructor
  · intro h
    have ht := t.clock.valid
    have hu := u.clock.valid
    simp only [localMicros, Int.natCast_inj] at h
    refine ⟨Day.ordinal_injective (by omega), ?_⟩
    have hparts : t.clock.hour = u.clock.hour ∧ t.clock.minute = u.clock.minute ∧
        t.clock.second = u.clock.second ∧ t.clock.micro = u.clock.micro := by omega
    generalize t.clock = c, u.clock = c' at hparts
    cases c
    cases c'
    obtain ⟨rfl, rfl, rfl, rfl⟩ := hparts
    rfl
  · rintro ⟨hday, hclock⟩
    rw [localMicros, localMicros, hday, hclock]

end Conform
