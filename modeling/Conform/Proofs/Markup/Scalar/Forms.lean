import Conform.Markup.Print
import Conform.Markup.Scalar.Meaning
import Conform.Proofs.Markup.Scalar.Plain
import Conform.Proofs.Number.Numeral

/-!
# Forms of atoms that need no quotes

Null, truth values, integers, days and times are written as plain scalars. Each form can stand
without quotes (`fitsPlain_plainForm`), looks like what it is (`tagOf_plainForm`), and denotes the
atom it was written for (`valueOf?_plainForm`). What the patterns need to know of a form is its
first character and what stands behind its first digits, so the lemmas are about those.
-/

namespace Conform.Markup

open Pattern

/-! ## 1. Numbers at the start -/

/-- The characters with which numbers and times start. -/
def startsNumber (c : Char) : Bool :=
  c = '-' || isDigit c

/-- What starts like a number is no word. -/
theorem ne_of_startsNumber {c : Char} (h : startsNumber c = true) (cs : List Char)
    {w : List Char} (hw : w.head?.any startsNumber = false) : w ≠ c :: cs := by
  rintro rfl
  rw [List.head?_cons, Option.any_some, h] at hw
  cases hw

theorem isBool_of_startsNumber {c : Char} (h : startsNumber c = true) (cs : List Char) :
    isBool (c :: cs) = false := by
  have hwords : (boolWords.any fun w => w.1.head?.any startsNumber) = false := by decide
  rw [isBool, List.any_eq_false]
  intro w hw
  simpa using ne_of_startsNumber h cs (Bool.eq_false_iff.mpr (List.any_eq_false.mp hwords w hw))

theorem not_mem_of_startsNumber {c : Char} (h : startsNumber c = true) (cs : List Char)
    {words : List (List Char)} (hwords : (words.any fun w => w.head?.any startsNumber) = false) :
    words.contains (c :: cs) = false := by
  rw [List.contains_eq_mem, decide_eq_false_iff_not]
  exact fun hmem => ne_of_startsNumber h cs
    (Bool.eq_false_iff.mpr (List.any_eq_false.mp hwords _ hmem)) rfl

/-- A digit is no sign. -/
theorem unsigned_of_digit {c : Char} (h : isDigit c = true) (cs : List Char) :
    unsigned (c :: cs) = c :: cs := by
  unfold unsigned
  split
  · rename_i heq
    rw [(List.cons.inj heq).1] at h
    exact absurd h (by decide)
  · rename_i heq
    rw [(List.cons.inj heq).1] at h
    exact absurd h (by decide)
  · rfl

/-- What starts like a number is a float, an integer, a time or a string. -/
theorem tagOfWhole_of_startsNumber {c : Char} (h : startsNumber c = true) (cs : List Char) :
    tagOfWhole (c :: cs) =
      if isFloat (c :: cs) then .float
      else if isInt (c :: cs) then .int
      else if isTimestamp (c :: cs) then .timestamp
      else .str := by
  have hnull : isNull (c :: cs) = false := not_mem_of_startsNumber h cs (by decide)
  have hmerge : ¬ c :: cs = "<<".toList := fun e =>
    ne_of_startsNumber h cs (w := "<<".toList) (by decide) e.symm
  have hvalue : ¬ c :: cs = "=".toList := fun e =>
    ne_of_startsNumber h cs (w := "=".toList) (by decide) e.symm
  have hreserved : reservedMarks.contains (c :: cs) = false := not_mem_of_startsNumber h cs (by decide)
  rw [tagOfWhole, isBool_of_startsNumber h, hnull, if_neg hmerge, if_neg hvalue, hreserved]
  simp

/-- A number that ends with its digits, or goes on with a hyphen, has no fraction. -/
theorem isFloat_of_digits {cs ds rest : List Char} {c : Char} (hbody : unsigned cs = c :: ds ++ rest)
    (hds : ∀ d ∈ c :: ds, isDigit d = true) (hcs : ∀ d ∈ cs.head?, startsNumber d = true)
    (hrest : rest = [] ∨ ∃ more, rest = '-' :: more) : isFloat cs = false := by
  obtain ⟨hc, hds⟩ := List.forall_mem_cons.mp hds
  have hnumber : startsNumber c = true := by simp [startsNumber, hc]
  have hinfinity : infinityNames.contains (c :: (ds ++ rest)) = false :=
    not_mem_of_startsNumber hnumber _ (by decide)
  have hnan : nanNames.contains cs = false := by
    cases cs with
    | nil => simp [unsigned] at hbody
    | cons d more => exact not_mem_of_startsNumber (hcs d rfl) _ (by decide)
  have hgap : ∀ d ∈ ds, isDigitGap d = true := fun d hd => by simp [isDigitGap, hds d hd]
  have hdrop : (ds ++ rest).dropWhile isDigitGap = rest := by
    rw [List.dropWhile_append_of_pos hgap]
    rcases hrest with rfl | ⟨more, rfl⟩
    · rfl
    · rfl
  rw [List.cons_append] at hbody
  unfold isFloat
  simp only [hbody, hinfinity, hnan, hc, hdrop, if_true, Bool.false_or]
  rcases hrest with rfl | ⟨more, rfl⟩
  · rfl
  · rfl

/-- A form that ends with a digit has no line feed at its end. -/
theorem withoutLastFeed_of_digit {front : List Char} {c : Char} (h : isDigit c = true) :
    withoutLastFeed (front ++ [c]) = front ++ [c] := by
  have hfeed : ¬ c = '\n' := by
    rintro rfl
    exact absurd h (by decide)
  simp [withoutLastFeed, hfeed]

/-! ## 2. Integers -/

theorem unsigned_written (i : Int) : unsigned (Numeral.written i) = decimalDigits i.natAbs := by
  rw [Numeral.written]
  split
  · rfl
  · obtain ⟨c, ds, hcons⟩ := List.exists_cons_of_ne_nil (decimalDigits_ne_nil i.natAbs)
    have hc : isDigit c = true :=
      isDigit_of_mem_decimalDigits (by rw [hcons]; exact List.mem_cons_self)
    rw [hcons, unsigned_of_digit hc]

theorem written_cases (i : Int) : ∃ c cs, Numeral.written i = c :: cs ∧ startsNumber c = true := by
  rw [Numeral.written]
  split
  · exact ⟨'-', _, rfl, rfl⟩
  · obtain ⟨c, ds, hcons⟩ := List.exists_cons_of_ne_nil (decimalDigits_ne_nil i.natAbs)
    refine ⟨c, ds, hcons, ?_⟩
    have hc : isDigit c = true :=
      isDigit_of_mem_decimalDigits (by rw [hcons]; exact List.mem_cons_self)
    simp [startsNumber, hc]

/-- An integer ends with a digit. -/
theorem written_eq_append (i : Int) :
    ∃ front c, Numeral.written i = front ++ [c] ∧ isDigit c = true := by
  have hne := decimalDigits_ne_nil i.natAbs
  have hlast := isDigit_of_mem_decimalDigits (List.getLast_mem hne)
  have hsplit := (List.dropLast_concat_getLast hne).symm
  rw [Numeral.written]
  split
  · exact ⟨'-' :: (decimalDigits i.natAbs).dropLast, _, congrArg _ hsplit, hlast⟩
  · exact ⟨(decimalDigits i.natAbs).dropLast, _, hsplit, hlast⟩

theorem isInt_written (i : Int) : isInt (Numeral.written i) = true := by
  unfold isInt
  rw [unsigned_written]
  rcases decimalDigits_cases i.natAbs with ⟨-, hzero⟩ | ⟨c, ds, hcons, hc⟩
  · rw [hzero]
    rfl
  · have hdigits : ∀ d ∈ c :: ds, isDigit d = true := fun d hd =>
      isDigit_of_mem_decimalDigits (n := i.natAbs) (by rw [hcons]; exact hd)
    obtain ⟨hfirst, hds⟩ := List.forall_mem_cons.mp hdigits
    have hall : ds.all isDigitGap = true :=
      List.all_eq_true.mpr fun d hd => by simp [isDigitGap, hds d hd]
    rw [hcons]
    split
    · rename_i heq
      cases heq
    · rename_i heq
      exact absurd (List.cons.inj heq).1 hc
    · rename_i heq
      cases heq
      rw [hfirst, hall]
      rfl

theorem tagOf_written (i : Int) : tagOf (Numeral.written i) = .int := by
  obtain ⟨front, last, hlast, hdigit⟩ := written_eq_append i
  obtain ⟨c, cs, hcons, hc⟩ := written_cases i
  obtain ⟨d, ds, hdigits⟩ := List.exists_cons_of_ne_nil (decimalDigits_ne_nil i.natAbs)
  have hfloat : isFloat (c :: cs) = false := by
    refine @isFloat_of_digits _ ds [] d ?_ (fun x hx => ?_) ?_ (.inl rfl)
    · rw [← hcons, unsigned_written, hdigits, List.append_nil]
    · exact isDigit_of_mem_decimalDigits (n := i.natAbs) (by rw [hdigits]; exact hx)
    · rintro x ⟨⟩
      exact hc
  have hint := isInt_written i
  rw [tagOf, hlast, withoutLastFeed_of_digit hdigit, ← hlast, hcons,
    tagOfWhole_of_startsNumber hc, hfloat]
  rw [hcons] at hint
  rw [hint]
  rfl

/-- **An integer denotes itself.** -/
theorem intOf_written {i : Int} (h : Numeral.isWritable i = true) :
    Scalar.intOf (Text.ofChars (Numeral.written i)) = .ok (.int i) := by
  have hnegate : (if decide (i < 0) = true then -(i.natAbs : Int) else i.natAbs) = i := by
    by_cases hneg : i < 0
    · simp only [hneg, decide_true, if_true]
      omega
    · simp only [hneg, decide_false, Bool.false_eq_true, if_false]
      omega
  have hdigits : ∀ c ∈ decimalDigits i.natAbs, isDigit c = true :=
    fun c hc => isDigit_of_mem_decimalDigits hc
  have hdense : Scalar.dense (Numeral.written i) = Numeral.written i := by
    refine List.filter_eq_self.mpr fun c hc => ?_
    have hany : c = '-' ∨ isDigit c = true := by
      rw [Numeral.written] at hc
      split at hc
      · exact (List.mem_cons.mp hc).imp_right (hdigits c)
      · exact .inr (hdigits c hc)
    rcases hany with rfl | hc
    · decide
    · exact forall_isDigit (P := fun c => (c != '_') = true) (by decide) hc
  have hsign : Numeral.splitSign (Numeral.written i) =
      (decide (i < 0), decimalDigits i.natAbs) := by
    rw [Numeral.written]
    split
    · rename_i hneg
      simp [Numeral.splitSign, hneg]
    · rename_i hneg
      obtain ⟨c, ds, hcons⟩ := List.exists_cons_of_ne_nil (decimalDigits_ne_nil i.natAbs)
      have hc : isDigit c = true := hdigits c (by rw [hcons]; exact List.mem_cons_self)
      rw [hcons, decide_eq_false hneg, Numeral.splitSign]
      · intro cs e
        exact forall_isDigit (P := fun c => c ≠ '-') (by decide) hc (List.cons.inj e).1
      · intro cs e
        exact forall_isDigit (P := fun c => c ≠ '+') (by decide) hc (List.cons.inj e).1
  have hcolon : (decimalDigits i.natAbs).contains ':' = false := by
    rw [List.contains_eq_mem, decide_eq_false_iff_not]
    exact fun hmem => absurd (hdigits _ hmem) (by decide)
  have hsigned : Scalar.signed (decide (i < 0))
      (Numeral.integer? 10 (decimalDigits i.natAbs)) = .ok (.int i) := by
    rw [integer?_decimalDigits (length_decimalDigits_le h), Scalar.signed, hnegate]
  unfold Scalar.intOf
  rw [Text.chars?_ofChars]
  simp only [hdense, hsign, hcolon]
  rcases decimalDigits_cases i.natAbs with ⟨hzero, hwritten⟩ | ⟨c, ds, hcons, hc⟩
  · rw [hwritten, Int.natAbs_eq_zero.mp hzero]
    rfl
  · rw [hcons] at hsigned ⊢
    split
    · rename_i heq
      cases heq
    · rename_i heq
      exact absurd (List.cons.inj heq).1 hc
    · rename_i heq
      exact absurd (List.cons.inj heq).1 hc
    · rename_i heq
      exact absurd (List.cons.inj heq).1 hc
    · rename_i heq
      exact absurd (List.cons.inj heq).1 hc
    · simpa using hsigned

/-! ## 3. Days -/

/-- A month that has days is one of twelve, and has at most 31. -/
theorem month_of_daysInMonth {year month day : Nat} (h : 1 ≤ day ∧ day ≤ daysInMonth year month) :
    month < 100 ∧ day < 100 := by
  unfold daysInMonth at h
  split at h
  case h_12 => split at h <;> omega
  all_goals omega

/-- A date in front of nothing or of a time of day is recognised with its numbers. -/
theorem timeParts?_day (d : Day) {rest : List Char} (h : ∀ c ∈ rest.head?, isDigit c = false) :
    timeParts? (d.written ++ rest) =
      if rest.isEmpty then some ⟨d.year, d.month, d.day, none, [], none⟩
      else clock? ⟨d.year, d.month, d.day, none, [], none⟩ rest := by
  obtain ⟨hmonth, hday⟩ := month_of_daysInMonth d.valid.2.2
  have hyear : d.year < 10 ^ 4 := by
    have := d.valid
    omega
  have hhyphen : ∀ (cs : List Char), ∀ c ∈ ('-' :: cs).head?, isDigit c = false := by
    rintro cs c ⟨⟩
    rfl
  rw [Day.written, timeParts?]
  simp only [List.append_assoc, List.cons_append, List.nil_append,
    number?_padded 4 4 4 (by decide) hyear (hhyphen _),
    number?_padded 1 2 2 (by decide) hmonth (hhyphen _),
    number?_padded 1 2 2 (by decide) hday h, char?, decide_true, if_true, Option.bind_eq_bind,
    Option.bind_some]

theorem length_written_day (d : Day) : d.written.length = 10 := by
  obtain ⟨hmonth, hday⟩ := month_of_daysInMonth d.valid.2.2
  have hyear : d.year < 10 ^ 4 := by
    have := d.valid
    omega
  simp [Day.written, length_paddedDigits (by decide) hyear,
    length_paddedDigits (w := 2) (by decide) hmonth, length_paddedDigits (w := 2) (by decide) hday]

/-- A day is written with digits in front of a hyphen. -/
theorem written_day_cons (d : Day) : ∃ c ds back, d.written = c :: ds ++ '-' :: back ∧
    ∀ x ∈ c :: ds, isDigit x = true := by
  obtain ⟨c, ds, hyear⟩ : ∃ c ds, paddedDigits 4 d.year = c :: ds :=
    List.exists_cons_of_ne_nil (by simp [paddedDigits, decimalDigits_ne_nil])
  refine ⟨c, ds, paddedDigits 2 d.month ++ '-' :: paddedDigits 2 d.day, ?_, fun x hx => ?_⟩
  · simp [Day.written, hyear]
  · exact isDigit_of_mem_paddedDigits (w := 4) (n := d.year) (by rw [hyear]; exact hx)

/-- What ends with padded digits ends with a digit. -/
theorem append_paddedDigits (front : List Char) (w n : Nat) :
    ∃ back last, front ++ paddedDigits w n = back ++ [last] ∧ isDigit last = true := by
  have hne : paddedDigits w n ≠ [] := by simp [paddedDigits, decimalDigits_ne_nil]
  refine ⟨front ++ (paddedDigits w n).dropLast, (paddedDigits w n).getLast hne, ?_,
    isDigit_of_mem_paddedDigits (List.getLast_mem hne)⟩
  rw [List.append_assoc, List.dropLast_concat_getLast]

/-- A hyphen is in no integer but in front. -/
theorem isInt_of_hyphen {ds back : List Char} {c : Char} (hc : isDigit c = true)
    (hds : ∀ x ∈ ds, isDigit x = true) : isInt (c :: (ds ++ '-' :: back)) = false := by
  have hgap : ∀ x ∈ ds, isDigitGap x = true := fun x hx => by simp [isDigitGap, hds x hx]
  have hbase : ∀ base, isBaseGap base '-' = false := fun base => rfl
  have hsexagesimal : isSexagesimal (ds ++ '-' :: back) = false := by
    rw [isSexagesimal, List.dropWhile_append_of_pos hgap]
    rfl
  have hall : (ds ++ '-' :: back).all isDigitGap = false := by
    simp [List.all_append, show isDigitGap '-' = false by decide]
  have hbases : ∀ (base : Nat) (cs : List Char), '-' ∈ cs → cs.all (isBaseGap base) = false :=
    fun base cs hmem => by
      rw [List.all_eq_false]
      exact ⟨'-', hmem, by rw [hbase]; exact Bool.false_ne_true⟩
  unfold isInt
  rw [unsigned_of_digit hc]
  split
  · rfl
  · rename_i rest heq
    obtain ⟨-, hrest⟩ := List.cons.inj heq
    have hmem : '-' ∈ rest := by
      rw [← hrest]
      simp
    split
    · cases hmem
    · rename_i ds'
      rw [hbases 2 ds' (by simpa using hmem), Bool.and_false]
    · rename_i ds'
      rw [hbases 16 ds' (by simpa using hmem), Bool.and_false]
    · exact hbases 8 _ hmem
  · rename_i heq
    obtain ⟨-, hrest⟩ := List.cons.inj heq
    rw [← hrest, hall, hsexagesimal]
    simp

/-- What starts with digits and a hyphen, ends with a digit and is recognised as a time is nothing
    else. -/
theorem tagOf_of_isTimestamp {cs ds back front : List Char} {c last : Char}
    (hcs : cs = c :: ds ++ '-' :: back) (hds : ∀ x ∈ c :: ds, isDigit x = true)
    (hend : cs = front ++ [last]) (hlast : isDigit last = true) (htime : isTimestamp cs = true) :
    tagOf cs = .timestamp := by
  obtain ⟨hc, hmore⟩ := List.forall_mem_cons.mp hds
  have hnumber : startsNumber c = true := by simp [startsNumber, hc]
  have hwhole : withoutLastFeed cs = cs := by
    rw [hend]
    exact withoutLastFeed_of_digit hlast
  have hint : isInt cs = false := by
    rw [hcs]
    exact isInt_of_hyphen hc hmore
  have hfloat : isFloat cs = false := by
    refine @isFloat_of_digits _ ds ('-' :: back) c ?_ hds ?_ (.inr ⟨_, rfl⟩)
    · rw [hcs, List.cons_append, unsigned_of_digit hc]
    · rw [hcs]
      rintro x ⟨⟩
      exact hnumber
  rw [tagOf, hwhole]
  rw [hcs, List.cons_append] at hfloat hint htime ⊢
  rw [tagOfWhole_of_startsNumber hnumber, hfloat, hint, htime]
  rfl

theorem Day.of?_self (d : Day) : Day.of? d.year d.month d.day = some d := by
  rw [Day.of?, dif_pos d.valid]

theorem timeParts?_written_day (d : Day) :
    timeParts? d.written = some ⟨d.year, d.month, d.day, none, [], none⟩ := by
  have h := @timeParts?_day d [] (by simp)
  rw [List.append_nil] at h
  exact h

theorem tagOf_written_day (d : Day) : tagOf d.written = .timestamp := by
  obtain ⟨c, ds, back, hcs, hds⟩ := written_day_cons d
  obtain ⟨front, last, hend, hlast⟩ := append_paddedDigits
    (paddedDigits 4 d.year ++ ['-'] ++ paddedDigits 2 d.month ++ ['-']) 2 d.day
  refine tagOf_of_isTimestamp hcs hds hend hlast ?_
  rw [isTimestamp, timeParts?_written_day]
  simp [length_written_day]

/-! ## 4. Times -/

/-- The fraction of a second, behind its point. -/
def fractionForm (c : Clock) : List Char :=
  if c.micro = 0 then [] else '.' :: paddedDigits 6 c.micro

/-- The offset of a time. -/
def offsetForm : Option Offset → List Char
  | none => []
  | some o =>
    (if o.minutes < 0 then '-' else '+') :: (paddedDigits 2 (o.minutes.natAbs / 60) ++
      ':' :: paddedDigits 2 (o.minutes.natAbs % 60))

/-- The time of day, with the offset. -/
def clockForm (c : Clock) (o : Option Offset) : List Char :=
  ' ' :: (paddedDigits 2 c.hour ++ ':' :: (paddedDigits 2 c.minute ++ ':' ::
    (paddedDigits 2 c.second ++ (fractionForm c ++ offsetForm o))))

theorem written_moment (m : Moment) : m.written = m.day.written ++ clockForm m.clock m.offset := by
  unfold Moment.written clockForm fractionForm
  cases m.offset with
  | none => simp [offsetForm]
  | some o => simp [offsetForm]

theorem offset?_offsetForm (o : Option Offset) :
    offset? (offsetForm o) = some (o.map (·.minutes)) := by
  cases o with
  | none => rfl
  | some o =>
    have hbound := o.bounded
    have hhours : o.minutes.natAbs / 60 < 10 ^ 2 := by omega
    have hminutes : o.minutes.natAbs % 60 < 10 ^ 2 := by omega
    have hcolon : ∀ c ∈ (':' :: paddedDigits 2 (o.minutes.natAbs % 60)).head?, isDigit c = false := by
      rintro c ⟨⟩
      rfl
    have hread := @number?_padded 2 2 2 _ [] (by decide) hminutes (by simp)
    rw [List.append_nil] at hread
    have hsum : ((o.minutes.natAbs / 60 : Nat) : Int) * 60 + (o.minutes.natAbs % 60 : Nat) =
        o.minutes.natAbs := by omega
    have hparts : ∀ s : Char, s = '-' ∨ s = '+' →
        offset? (s :: (paddedDigits 2 (o.minutes.natAbs / 60) ++
          ':' :: paddedDigits 2 (o.minutes.natAbs % 60))) =
          some (some (if s = '-' then -(o.minutes.natAbs : Int) else o.minutes.natAbs)) := by
      intro s hs
      have hblank : (decide (s = ' ') || decide (s = '\t')) = false := by
        rcases hs with rfl | rfl <;> decide
      have hz : s ≠ 'Z' := by
        rcases hs with rfl | rfl <;> decide
      rw [offset?, List.dropWhile_cons, hblank, if_neg Bool.false_ne_true]
      split
      · rename_i heq
        cases heq
      · rename_i heq
        exact absurd (List.cons.inj heq).1 hz
      · rename_i heq
        obtain ⟨rfl, rfl⟩ := List.cons.inj heq
        simp only [number?_padded 1 2 2 (by decide) hhours hcolon, hread, Option.bind_eq_bind,
          Option.bind_some, List.isEmpty_nil, if_true, hsum]
        rw [if_pos (by simpa using hs)]
    rw [offsetForm]
    by_cases hneg : o.minutes < 0
    · rw [if_pos hneg, hparts '-' (.inl rfl)]
      simp only [if_true, Option.map_some]
      congr 2
      omega
    · rw [if_neg hneg, hparts '+' (.inr rfl)]
      simp only [show ¬ '+' = '-' by decide, if_false, Option.map_some]
      congr 2
      omega

theorem isDigit_head_offsetForm (o : Option Offset) :
    (offsetForm o).head? ≠ some '.' ∧ ∀ c ∈ (offsetForm o).head?, isDigit c = false := by
  cases o with
  | none => simp [offsetForm]
  | some o =>
    rw [offsetForm]
    split
    · exact ⟨by simp, by rintro c ⟨⟩; rfl⟩
    · exact ⟨by simp, by rintro c ⟨⟩; rfl⟩

/-- The digits of the fraction of a second. -/
def fractionDigits (c : Clock) : List Char :=
  if c.micro = 0 then [] else paddedDigits 6 c.micro

theorem microsOf_fractionDigits (c : Clock) : Scalar.microsOf (fractionDigits c) = c.micro := by
  rw [fractionDigits]
  split
  · rename_i h
    rw [h]
    rfl
  · have hlength : (paddedDigits 6 c.micro).length = 6 :=
      length_paddedDigits (by decide) c.valid.2.2.2
    rw [Scalar.microsOf]
    simp only [List.take_append_of_le_length (Nat.le_of_eq hlength.symm),
      List.take_of_length_le (Nat.le_of_eq hlength)]
    exact digitsValue_paddedDigits 6 c.micro

/-- A time of day is recognised with its numbers. -/
theorem clock?_clockForm (date : TimeParts) (c : Clock) (o : Option Offset) :
    clock? date (clockForm c o) =
      some { date with
        clock := some (c.hour, c.minute, c.second)
        fraction := fractionDigits c
        offset := o.map (·.minutes) } := by
  obtain ⟨hhour, hminute, hsecond, hmicro⟩ := c.valid
  obtain ⟨hpoint, hoffset⟩ := isDigit_head_offsetForm o
  have hcolon : ∀ (cs : List Char), ∀ c ∈ (':' :: cs).head?, isDigit c = false := by
    rintro cs c ⟨⟩
    rfl
  have hbehind : ∀ x ∈ (fractionForm c ++ offsetForm o).head?, isDigit x = false := by
    rw [fractionForm]
    split
    · simpa using hoffset
    · rintro x ⟨⟩
      rfl
  have hblank : ∀ rest : List Char, ((paddedDigits 2 c.hour ++ rest).dropWhile fun c =>
      decide (c = ' ') || decide (c = '\t')) = paddedDigits 2 c.hour ++ rest := by
    intro rest
    obtain ⟨d, ds, hcons⟩ := List.exists_cons_of_ne_nil
      (show paddedDigits 2 c.hour ≠ [] by simp [paddedDigits, decimalDigits_ne_nil])
    have hd : isDigit d = true :=
      isDigit_of_mem_paddedDigits (w := 2) (n := c.hour) (by rw [hcons]; exact List.mem_cons_self)
    have hno : (decide (d = ' ') || decide (d = '\t')) = false :=
      forall_isDigit (P := fun d => (decide (d = ' ') || decide (d = '\t')) = false) (by decide) hd
    rw [hcons, List.cons_append, List.dropWhile_cons, hno, if_neg Bool.false_ne_true]
  rw [clockForm, clock?]
  · simp only [hblank, number?_padded 1 2 2 (by decide) (show c.hour < 10 ^ 2 by omega) (hcolon _),
      number?_padded 2 2 2 (by decide) (show c.minute < 10 ^ 2 by omega) (hcolon _),
      number?_padded 2 2 2 (by decide) (show c.second < 10 ^ 2 by omega) hbehind, char?,
      decide_true, Bool.true_or, if_true, Option.bind_eq_bind, Option.bind_some]
    rw [fractionForm, fractionDigits]
    by_cases hzero : c.micro = 0
    · rw [if_pos hzero, if_pos hzero, List.nil_append]
      split
      · rename_i heq
        exact absurd (by rw [heq]; rfl) hpoint
      · rw [offset?_offsetForm]
        rfl
    · have hdigits : ∀ x ∈ paddedDigits 6 c.micro, isDigit x = true :=
        fun x hx => isDigit_of_mem_paddedDigits hx
      have hread := @Cursor.takeWhile_append _ _ (offsetForm o) {} hdigits hoffset
      simp only [Cursor.takeWhile, Cursor.past_eq, Prod.mk.injEq, Cursor.mk.injEq] at hread
      rw [if_neg hzero, if_neg hzero, List.cons_append]
      simp only [hread, offset?_offsetForm, Option.bind_some]
  · decide
  · decide

theorem timeParts?_written_moment (m : Moment) :
    timeParts? m.written = some ⟨m.day.year, m.day.month, m.day.day,
      some (m.clock.hour, m.clock.minute, m.clock.second), fractionDigits m.clock,
      m.offset.map (·.minutes)⟩ := by
  have hspace : ∀ c ∈ (clockForm m.clock m.offset).head?, isDigit c = false := by
    rintro c ⟨⟩
    rfl
  rw [written_moment, timeParts?_day m.day hspace, clock?_clockForm]
  rfl

/-- A time ends with a digit. -/
theorem written_moment_eq_append (m : Moment) :
    ∃ front last, m.written = front ++ [last] ∧ isDigit last = true := by
  rw [written_moment, clockForm]
  cases m.offset with
  | some o =>
    rw [offsetForm]
    obtain ⟨front, last, h, hlast⟩ := append_paddedDigits
      (m.day.written ++ ' ' :: (paddedDigits 2 m.clock.hour ++ ':' ::
        (paddedDigits 2 m.clock.minute ++ ':' :: (paddedDigits 2 m.clock.second ++
          (fractionForm m.clock ++ (if o.minutes < 0 then '-' else '+') ::
            (paddedDigits 2 (o.minutes.natAbs / 60) ++ [':'])))))) 2 (o.minutes.natAbs % 60)
    exact ⟨front, last, by rw [← h]; simp, hlast⟩
  | none =>
    rw [offsetForm, fractionForm]
    split
    · obtain ⟨front, last, h, hlast⟩ := append_paddedDigits
        (m.day.written ++ ' ' :: (paddedDigits 2 m.clock.hour ++ ':' ::
          (paddedDigits 2 m.clock.minute ++ [':']))) 2 m.clock.second
      exact ⟨front, last, by rw [← h]; simp, hlast⟩
    · obtain ⟨front, last, h, hlast⟩ := append_paddedDigits
        (m.day.written ++ ' ' :: (paddedDigits 2 m.clock.hour ++ ':' ::
          (paddedDigits 2 m.clock.minute ++ ':' :: (paddedDigits 2 m.clock.second ++ ['.'])))) 6
            m.clock.micro
      exact ⟨front, last, by rw [← h]; simp, hlast⟩

theorem tagOf_written_moment (m : Moment) : tagOf m.written = .timestamp := by
  obtain ⟨c, ds, back, hcs, hds⟩ := written_day_cons m.day
  obtain ⟨front, last, hend, hlast⟩ := written_moment_eq_append m
  refine @tagOf_of_isTimestamp _ ds (back ++ clockForm m.clock m.offset) _ c _ ?_ hds hend hlast ?_
  · rw [written_moment, hcs]
    simp
  · rw [isTimestamp, timeParts?_written_moment]
    rfl

/-- **A day and a time denote themselves.** -/
theorem momentOf_written_day (d : Day) :
    Scalar.momentOf (Text.ofChars d.written) = .ok (.day d) := by
  obtain ⟨front, last, hend, hlast⟩ := append_paddedDigits
    (paddedDigits 4 d.year ++ ['-'] ++ paddedDigits 2 d.month ++ ['-']) 2 d.day
  have hwhole : withoutLastFeed d.written = d.written := by
    rw [Day.written, hend]
    exact withoutLastFeed_of_digit hlast
  rw [Scalar.momentOf, Text.chars?_ofChars, Option.bind_some, hwhole, timeParts?_written_day]
  simp only [Scalar.timeOf?, Day.of?_self, Option.map_some]

theorem momentOf_written_moment (m : Moment) :
    Scalar.momentOf (Text.ofChars m.written) = .ok (.moment m) := by
  obtain ⟨front, last, hend, hlast⟩ := written_moment_eq_append m
  have hwhole : withoutLastFeed m.written = m.written := by
    rw [hend]
    exact withoutLastFeed_of_digit hlast
  have hclock : Clock.of? m.clock.hour m.clock.minute m.clock.second m.clock.micro =
      some m.clock := by
    rw [Clock.of?, dif_pos m.clock.valid]
  rw [Scalar.momentOf, Text.chars?_ofChars, Option.bind_some, hwhole, timeParts?_written_moment]
  simp only [Scalar.timeOf?, microsOf_fractionDigits, Day.of?_self, hclock, Option.bind_eq_bind,
    Option.bind_some]
  cases h : m.offset with
  | none =>
    simp only [Option.map_none]
    rw [← h]
  | some o =>
    have hoffset : Offset.of? o.minutes = some o := by
      rw [Offset.of?, dif_pos o.bounded]
    simp only [Option.map_some, hoffset, Option.bind_some]
    rw [← h]

/-! ## 5. All forms -/

open Style

/-- No colon ends a word in these characters, and no hash sign starts one. -/
def Smooth (cs : List Char) : Prop :=
  ∀ previous, goesOnPlainly previous cs = true

theorem smooth_nil : Smooth [] := fun _ => rfl

theorem Smooth.append : ∀ {xs ys : List Char}, (∀ c ∈ xs, c ≠ ':' ∧ c ≠ '#') → Smooth ys →
    Smooth (xs ++ ys)
  | [], _, _, hys => hys
  | x :: xs, ys, h, hys => fun previous => by
      obtain ⟨⟨hcolon, hhash⟩, hxs⟩ := List.forall_mem_cons.mp h
      simp [goesOnPlainly, hcolon, hhash, Smooth.append hxs hys x]

theorem Smooth.cons {c : Char} {cs : List Char} (hc : c ≠ ':' ∧ c ≠ '#') (h : Smooth cs) :
    Smooth (c :: cs) :=
  Smooth.append (List.forall_mem_singleton.mpr hc) h

theorem Smooth.colon {c : Char} {cs : List Char} (hc : isDigit c = true) (h : Smooth (c :: cs)) :
    Smooth (':' :: (c :: cs)) := fun previous => by
  have hgap : isGap c = false := forall_isDigit (P := fun c => isGap c = false) (by decide) hc
  rw [goesOnPlainly, h ':']
  simp [atGap, hgap]

/-- Digits are smooth in front of what is, also behind a colon. -/
theorem Smooth.digits {ds cs : List Char} (h : ∀ c ∈ ds, isDigit c = true) (hcs : Smooth cs) :
    Smooth (ds ++ cs) :=
  Smooth.append (fun c hc =>
    forall_isDigit (P := fun c => c ≠ ':' ∧ c ≠ '#') (by decide) (h c hc)) hcs

theorem Smooth.colonDigits {w n : Nat} {cs : List Char} (hcs : Smooth cs) :
    Smooth (':' :: (paddedDigits w n ++ cs)) := by
  have hdigits : ∀ c ∈ paddedDigits w n, isDigit c = true :=
    fun c hc => isDigit_of_mem_paddedDigits hc
  have hsmooth : Smooth (paddedDigits w n ++ cs) := Smooth.digits hdigits hcs
  obtain ⟨c, ds, hcons⟩ := List.exists_cons_of_ne_nil
    (show paddedDigits w n ≠ [] by simp [paddedDigits, decimalDigits_ne_nil])
  rw [hcons] at hdigits hsmooth ⊢
  exact Smooth.colon (hdigits c List.mem_cons_self) hsmooth

/-- What starts with a digit, or with a hyphen and a digit, can start a plain scalar. -/
theorem startsPlainly_of_digit {c : Char} (h : isDigit c = true) (cs : List Char) :
    startsPlainly (c :: cs) = true ∧ startsPlainly ('-' :: c :: cs) = true := by
  have hclass : c ≠ '-' ∧ c ≠ '.' ∧ openers.contains c = false ∧ c ≠ ' ' ∧ c ≠ '?' ∧ c ≠ ':' ∧
      isGap c = false :=
    forall_isDigit (P := fun c => c ≠ '-' ∧ c ≠ '.' ∧ openers.contains c = false ∧ c ≠ ' ' ∧
      c ≠ '?' ∧ c ≠ ':' ∧ isGap c = false) (by decide) h
  obtain ⟨hhyphen, hpoint, hopener, hspace, hquestion, hcolon, hgap⟩ := hclass
  constructor
  · unfold startsPlainly
    split
    · rename_i heq
      cases heq
    · rename_i heq
      exact absurd (List.cons.inj heq).1 hhyphen
    · rename_i heq
      exact absurd (List.cons.inj heq).1 hpoint
    · rename_i heq
      obtain ⟨rfl, rfl⟩ := List.cons.inj heq
      simp only [hopener]
      simp [hspace, hquestion, hcolon, hhyphen]
  · have hfirst : openers.contains '-' = false := by decide
    unfold startsPlainly
    split
    · rename_i heq
      cases heq
    · rename_i heq
      exact absurd (List.cons.inj (List.cons.inj heq).2).1 hhyphen
    · rename_i heq
      exact absurd (List.cons.inj heq).1 (by decide)
    · rename_i heq
      obtain ⟨rfl, rfl⟩ := List.cons.inj heq
      simp only [hfirst, atGap, hgap]
      decide

theorem all_isShown_paddedDigits (w n : Nat) : (paddedDigits w n).all isShown = true :=
  List.all_eq_true.mpr fun _ hc =>
    forall_isDigit (P := fun c => isShown c = true) (by decide) (isDigit_of_mem_paddedDigits hc)

theorem fitsPlain_of_smooth {cs front : List Char} {last : Char} (hshown : cs.all isShown = true)
    (hstart : startsPlainly cs = true) (hsmooth : Smooth cs) (hend : cs = front ++ [last])
    (hlast : isDigit last = true) : fitsPlain cs = true := by
  refine fitsPlain_iff.mpr ⟨List.all_eq_true.mp hshown, hstart, hsmooth ' ', ?_⟩
  rw [hend, List.getLast?_concat]
  rintro ⟨⟩
  exact absurd hlast (by decide)

theorem fitsPlain_written (i : Int) : fitsPlain (Numeral.written i) = true := by
  obtain ⟨front, last, hend, hlast⟩ := written_eq_append i
  have hdigits : ∀ c ∈ decimalDigits i.natAbs, isDigit c = true :=
    fun c hc => isDigit_of_mem_decimalDigits hc
  have hall : (decimalDigits i.natAbs).all isShown = true := List.all_eq_true.mpr fun c hc =>
    forall_isDigit (P := fun c => isShown c = true) (by decide) (hdigits c hc)
  have hsmooth : Smooth (decimalDigits i.natAbs ++ []) := Smooth.digits hdigits smooth_nil
  obtain ⟨c, ds, hcons⟩ := List.exists_cons_of_ne_nil (decimalDigits_ne_nil i.natAbs)
  have hc : isDigit c = true := hdigits c (by rw [hcons]; exact List.mem_cons_self)
  obtain ⟨hplus, hminus⟩ := startsPlainly_of_digit hc ds
  rw [List.append_nil] at hsmooth
  refine fitsPlain_of_smooth ?_ ?_ ?_ hend hlast
  · rw [Numeral.written]
    split
    · rw [List.all_cons, hall]
      decide
    · exact hall
  · rw [Numeral.written, hcons]
    split
    · exact hminus
    · exact hplus
  · rw [Numeral.written]
    split
    · exact Smooth.cons (c := '-') (by decide) hsmooth
    · exact hsmooth

/-- A date in front of a smooth rest. -/
theorem smooth_day (d : Day) {rest : List Char} (h : Smooth rest) :
    Smooth (d.written ++ rest) := by
  have hhyphen : ∀ {cs : List Char}, Smooth cs → Smooth ('-' :: cs) := fun hcs =>
    Smooth.cons (c := '-') (by decide) hcs
  have hdigits : ∀ w n : Nat, ∀ c ∈ paddedDigits w n, isDigit c = true :=
    fun w n c hc => isDigit_of_mem_paddedDigits hc
  rw [Day.written]
  simp only [List.append_assoc, List.cons_append, List.nil_append]
  exact Smooth.digits (hdigits 4 _) (hhyphen (Smooth.digits (hdigits 2 _)
    (hhyphen (Smooth.digits (hdigits 2 _) h))))

theorem fitsPlain_written_day (d : Day) : fitsPlain d.written = true := by
  obtain ⟨c, ds, back, hcs, hds⟩ := written_day_cons d
  obtain ⟨front, last, hend, hlast⟩ := append_paddedDigits
    (paddedDigits 4 d.year ++ ['-'] ++ paddedDigits 2 d.month ++ ['-']) 2 d.day
  have hsmooth := smooth_day d smooth_nil
  rw [List.append_nil] at hsmooth
  refine fitsPlain_of_smooth ?_ ?_ hsmooth hend hlast
  · simp [Day.written, all_isShown_paddedDigits, show isShown '-' = true by decide]
  · rw [hcs]
    exact (startsPlainly_of_digit (hds c List.mem_cons_self) _).1

theorem smooth_clockForm (c : Clock) (o : Option Offset) : Smooth (clockForm c o) := by
  have hoffset : Smooth (offsetForm o) := by
    cases o with
    | none => exact smooth_nil
    | some o =>
      have hcolon : Smooth (':' :: paddedDigits 2 (o.minutes.natAbs % 60)) := by
        have := Smooth.colonDigits (w := 2) (n := o.minutes.natAbs % 60) smooth_nil
        rwa [List.append_nil] at this
      have hhours := @Smooth.digits (paddedDigits 2 (o.minutes.natAbs / 60)) _
        (fun c hc => isDigit_of_mem_paddedDigits hc) hcolon
      rw [offsetForm]
      split
      · exact Smooth.cons (c := '-') (by decide) hhours
      · exact Smooth.cons (c := '+') (by decide) hhours
  have hfraction : Smooth (fractionForm c ++ offsetForm o) := by
    rw [fractionForm]
    split
    · exact hoffset
    · exact Smooth.cons (c := '.') (by decide)
        (Smooth.digits (fun c hc => isDigit_of_mem_paddedDigits hc) hoffset)
  exact Smooth.cons (c := ' ') (by decide)
    (Smooth.digits (fun c hc => isDigit_of_mem_paddedDigits hc)
      (Smooth.colonDigits (Smooth.colonDigits hfraction)))

theorem fitsPlain_written_moment (m : Moment) : fitsPlain m.written = true := by
  obtain ⟨c, ds, back, hcs, hds⟩ := written_day_cons m.day
  obtain ⟨front, last, hend, hlast⟩ := written_moment_eq_append m
  have hmarks : isShown '-' = true ∧ isShown '+' = true ∧ isShown ':' = true ∧
      isShown '.' = true ∧ isShown ' ' = true := by decide
  have hfraction : (fractionForm m.clock).all isShown = true := by
    rw [fractionForm]
    split
    · rfl
    · rw [List.all_cons, hmarks.2.2.2.1, all_isShown_paddedDigits]
      rfl
  have hoffset : (offsetForm m.offset).all isShown = true := by
    cases m.offset with
    | none => rfl
    | some o =>
      rw [offsetForm, List.all_cons, List.all_append, List.all_cons, all_isShown_paddedDigits,
        all_isShown_paddedDigits, hmarks.2.2.1]
      split
      · rw [hmarks.1]
        rfl
      · rw [hmarks.2.1]
        rfl
  refine fitsPlain_of_smooth ?_ ?_ ?_ hend hlast
  · rw [written_moment, clockForm, Day.written]
    simp only [List.all_append, List.all_cons, List.all_nil, all_isShown_paddedDigits, hfraction,
      hoffset, hmarks, Bool.and_self]
  · rw [written_moment, hcs]
    exact (startsPlainly_of_digit (hds c List.mem_cons_self) _).1
  · rw [written_moment]
    exact smooth_day m.day (smooth_clockForm m.clock m.offset)

/-- An atom that is written as its plain form. -/
def HasForm : Atom → Prop
  | .float _ => False
  | .str _ => False
  | .bytes _ => False
  | _ => True

/-- **The form of an atom stands without quotes.** -/
theorem fitsPlain_plainForm {a : Atom} (h : HasForm a) : fitsPlain (plainForm a) = true := by
  cases a with
  | null => decide
  | bool b => cases b <;> decide
  | int i => exact fitsPlain_written i
  | day d => exact fitsPlain_written_day d
  | moment m => exact fitsPlain_written_moment m
  | _ => exact h.elim

/-- **The form of an atom looks like what it is.** -/
theorem tagOf_plainForm {a : Atom} (h : HasForm a) : tagOf (plainForm a) = tagOfAtom a := by
  cases a with
  | null => decide
  | bool b => cases b <;> decide
  | int i => exact tagOf_written i
  | day d => exact tagOf_written_day d
  | moment m => exact tagOf_written_moment m
  | _ => exact h.elim

/-- **The form of an atom denotes it.** -/
theorem valueOf?_plainForm {a : Atom} (h : HasForm a)
    (hint : ∀ i, a = .int i → Numeral.isWritable i = true) (origin : Double.Origin) :
    Scalar.valueOf? origin (tagOfAtom a) (Text.ofChars (plainForm a)) = some (.ok a) := by
  cases a with
  | null => rfl
  | bool b =>
    have hword : Scalar.boolOf (Text.ofChars (plainForm (.bool b))) = .ok (.bool b) := by
      cases b <;> rfl
    exact congrArg some hword
  | int i => exact congrArg some (intOf_written (hint i rfl))
  | day d => exact congrArg some (momentOf_written_day d)
  | moment m => exact congrArg some (momentOf_written_moment m)
  | _ => exact h.elim

end Conform.Markup
