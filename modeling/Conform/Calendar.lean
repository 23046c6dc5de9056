import Conform.Text.DecimalDigit

/-!
# Dates and times

The days of the Gregorian calendar from year 1 to year 9999, and the times of day on them, with or
without an offset from universal time. This file fixes which days and times exist, how they are
written, and when two times with offsets are the same instant.
-/

namespace Conform

/-! ## 1. Days -/

/-- Does the year have a 29th of February? -/
def isLeapYear (year : Nat) : Bool :=
  year % 4 = 0 && (year % 100 != 0 || year % 400 = 0)

/-- How many days a month has; none if there is no such month. -/
def daysInMonth (year month : Nat) : Nat :=
  match month with
  | 1 | 3 | 5 | 7 | 8 | 10 | 12 => 31
  | 4 | 6 | 9 | 11 => 30
  | 2 => if isLeapYear year then 29 else 28
  | _ => 0

/-- A day of the calendar. -/
structure Day where
  year : Nat
  month : Nat
  day : Nat
  valid : 1 ≤ year ∧ year ≤ 9999 ∧ 1 ≤ day ∧ day ≤ daysInMonth year month
  deriving DecidableEq, Repr

namespace Day

/-- The day with these numbers, if it exists. -/
def of? (year month day : Nat) : Option Day :=
  if h : 1 ≤ year ∧ year ≤ 9999 ∧ 1 ≤ day ∧ day ≤ daysInMonth year month then
    some ⟨year, month, day, h⟩
  else none

/-- The days of a common year before a month. -/
def daysBeforeMonth (month : Nat) : Nat :=
  ([0, 31, 59, 90, 120, 151, 181, 212, 243, 273, 304, 334][month - 1]?).getD 0

/-- The number of a day, counted from the first day of year 1. -/
def ordinal (d : Day) : Nat :=
  let past := d.year - 1
  past * 365 + past / 4 - past / 100 + past / 400 + daysBeforeMonth d.month +
    (if 2 < d.month && isLeapYear d.year then 1 else 0) + d.day

/-- A day as `YYYY-MM-DD`. -/
def written (d : Day) : List Char :=
  paddedDigits 4 d.year ++ ['-'] ++ paddedDigits 2 d.month ++ ['-'] ++ paddedDigits 2 d.day

end Day

/-! ## 2. Times -/

/-- A time of day, to the microsecond. -/
structure Clock where
  hour : Nat
  minute : Nat
  second : Nat
  micro : Nat
  valid : hour < 24 ∧ minute < 60 ∧ second < 60 ∧ micro < 1000000
  deriving DecidableEq, Repr

/-- The time of day with these numbers, if it exists. -/
def Clock.of? (hour minute second micro : Nat) : Option Clock :=
  if h : hour < 24 ∧ minute < 60 ∧ second < 60 ∧ micro < 1000000 then
    some ⟨hour, minute, second, micro, h⟩
  else none

/-- An offset from universal time in minutes, less than a day in either direction. -/
structure Offset where
  minutes : Int
  bounded : -1440 < minutes ∧ minutes < 1440
  deriving DecidableEq, Repr

/-- The offset of so many minutes, if it is one. -/
def Offset.of? (minutes : Int) : Option Offset :=
  if h : -1440 < minutes ∧ minutes < 1440 then some ⟨minutes, h⟩ else none

/-- A time on a day. Without an offset it is a local time, which is no instant. -/
structure Moment where
  day : Day
  clock : Clock
  offset : Option Offset
  deriving DecidableEq, Repr

namespace Moment

/-- The microseconds of a local time since the start of the calendar. -/
def localMicros (t : Moment) : Int :=
  let minutes := (t.day.ordinal * 24 + t.clock.hour) * 60 + t.clock.minute
  ((minutes * 60 + t.clock.second) * 1000000 + t.clock.micro : Nat)

/-- The instant of a time with an offset, in microseconds of universal time. -/
def instant? (t : Moment) : Option Int :=
  t.offset.map fun o => t.localMicros - o.minutes * 60000000

/-- A time as `YYYY-MM-DD HH:MM:SS`, with a fraction of six digits unless it is zero, and with
    the offset as `+HH:MM` if there is one. -/
def written (t : Moment) : List Char :=
  let c := t.clock
  let fraction := if c.micro = 0 then [] else '.' :: paddedDigits 6 c.micro
  let offset :=
    match t.offset with
    | none => []
    | some o =>
      let n := o.minutes.natAbs
      (if o.minutes < 0 then '-' else '+') ::
        (paddedDigits 2 (n / 60) ++ [':'] ++ paddedDigits 2 (n % 60))
  t.day.written ++ [' '] ++ paddedDigits 2 c.hour ++ [':'] ++ paddedDigits 2 c.minute ++ [':'] ++
    paddedDigits 2 c.second ++ fraction ++ offset

end Moment

end Conform
