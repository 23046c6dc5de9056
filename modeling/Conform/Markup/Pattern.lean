import Conform.Text.DecimalDigit
import Conform.Number.Numeral
import Conform.Markup.Tag

/-!
# Patterns of plain scalars

A plain scalar without a tag is read as what it looks like. This file fixes the looks: one
recogniser per kind, each on the whole text of the scalar. What no recogniser accepts is a string.
-/

namespace Conform.Markup.Pattern

/-! ## 1. Character classes -/

/-- A decimal digit of ASCII. -/
def isDigit (c : Char) : Bool :=
  48 ≤ c.toNat && c.toNat ≤ 57

/-- A decimal digit or an underscore, which numbers may hold anywhere behind their first digit. -/
def isDigitGap (c : Char) : Bool :=
  isDigit c || c = '_'

/-- A digit of a base up to sixteen, or an underscore. -/
def isBaseGap (base : Nat) (c : Char) : Bool :=
  (baseDigit? base c).isSome || c = '_'

/-- The text behind a sign, which may be absent. -/
def unsigned : List Char → List Char
  | '-' :: cs => cs
  | '+' :: cs => cs
  | cs => cs

/-- The text behind a character, if that is in front. -/
def char? (p : Char → Bool) : List Char → Option (List Char)
  | c :: cs => if p c then some cs else none
  | [] => none

/-! ## 2. Words -/

/-- The words for truth values. -/
def boolWords : List (List Char × Bool) :=
  [("yes".toList, true), ("Yes".toList, true), ("YES".toList, true),
   ("no".toList, false), ("No".toList, false), ("NO".toList, false),
   ("true".toList, true), ("True".toList, true), ("TRUE".toList, true),
   ("false".toList, false), ("False".toList, false), ("FALSE".toList, false),
   ("on".toList, true), ("On".toList, true), ("ON".toList, true),
   ("off".toList, false), ("Off".toList, false), ("OFF".toList, false)]

/-- The words for nothing. -/
def nullWords : List (List Char) :=
  [[], "~".toList, "null".toList, "Null".toList, "NULL".toList]

/-- Is the text a word for a truth value? -/
def isBool (cs : List Char) : Bool :=
  boolWords.any fun w => w.1 = cs

/-- Is the text a word for nothing? -/
def isNull (cs : List Char) : Bool :=
  nullWords.contains cs

/-! ## 3. Numbers -/

/-- The text behind the groups of base sixty in front: a colon and one digit, or two of which the
    first is at most five. `again` says whether a group has been read. -/
def afterGroups? (again : Bool) : List Char → Option (List Char)
  | ':' :: a :: b :: cs =>
    if !isDigit a then none
    else if isDigit b then
      if '5' < a then none else afterGroups? true cs
    else afterGroups? true (b :: cs)
  | [':', a] => if isDigit a then some [] else none
  | cs => if again then some cs else none

/-- Digits and groups of base sixty behind them, up to the end. -/
def isSexagesimal (cs : List Char) : Bool :=
  match afterGroups? false (cs.dropWhile isDigitGap) with
  | some [] => true
  | _ => false

/-- An integer: binary behind `0b`, hexadecimal behind `0x`, octal behind another zero, else
    decimal or in base sixty. -/
def isInt (cs : List Char) : Bool :=
  match unsigned cs with
  | [] => false
  | '0' :: rest =>
    match rest with
    | [] => true
    | 'b' :: ds => !ds.isEmpty && ds.all (isBaseGap 2)
    | 'x' :: ds => !ds.isEmpty && ds.all (isBaseGap 16)
    | ds => ds.all (isBaseGap 8)
  | c :: rest => isDigit c && (rest.all isDigitGap || isSexagesimal rest)

/-- An exponent with a sign, or nothing. -/
def isExponent : List Char → Bool
  | [] => true
  | e :: s :: ds =>
    (e = 'e' || e = 'E') && (s = '-' || s = '+') && !ds.isEmpty && ds.all isDigit
  | _ => false

/-- A point, digits and an exponent. -/
def isFraction : List Char → Bool
  | '.' :: rest => isExponent (rest.dropWhile isDigitGap)
  | _ => false

/-- A point and digits up to the end. -/
def isPointTail : List Char → Bool
  | '.' :: rest => rest.all isDigitGap
  | _ => false

/-- The names of the infinite number. -/
def infinityNames : List (List Char) :=
  [".inf".toList, ".Inf".toList, ".INF".toList]

/-- The names of what is not a number. -/
def nanNames : List (List Char) :=
  [".nan".toList, ".NaN".toList, ".NAN".toList]

/-- A floating number: digits around a point with an exponent, groups of base sixty with a point,
    or a name. A number that starts with its point has no sign. -/
def isFloat (cs : List Char) : Bool :=
  let body := unsigned cs
  infinityNames.contains body || nanNames.contains cs ||
    match body with
    | [] => false
    | c :: rest =>
      if isDigit c then
        let rest := rest.dropWhile isDigitGap
        isFraction rest || ((afterGroups? false rest).map isPointTail).getD false
      else
        match cs with
        | '.' :: d :: more => isDigit d && isExponent (more.dropWhile isDigitGap)
        | _ => false

/-! ## 4. Times -/

/-- The numbers of a time as they are written. -/
structure TimeParts where
  year : Nat
  month : Nat
  day : Nat
  /-- Hour, minute and second. -/
  clock : Option (Nat × Nat × Nat) := none
  /-- The digits behind the point of the second. -/
  fraction : List Char := []
  /-- The offset in minutes. -/
  offset : Option Int := none
  deriving DecidableEq, Repr, Inhabited

/-- The number that the digits in front make, and the text behind them, if there are at least
    `least` and at most `most`. -/
def number? (least most : Nat) (cs : List Char) : Option (Nat × List Char) :=
  let ds := cs.takeWhile isDigit
  if least ≤ ds.length && ds.length ≤ most then
    some (Numeral.ofDigits 10 (ds.map fun c => c.toNat - 48), cs.dropWhile isDigit)
  else none

/-- The offset of a time up to the end: nothing, `Z`, or a sign, hours and perhaps minutes, with
    spacing in front. -/
def offset? (cs : List Char) : Option (Option Int) :=
  match cs.dropWhile fun c => c = ' ' || c = '\t' with
  | [] => if cs.isEmpty then some none else none
  | ['Z'] => some (some 0)
  | s :: rest =>
    if s = '-' || s = '+' then do
      let (hours, rest) ← number? 1 2 rest
      let (minutes, rest) ←
        match rest with
        | [] => some (0, [])
        | ':' :: more => number? 2 2 more
        | _ => none
      if rest.isEmpty then
        let n : Int := hours * 60 + minutes
        some (some (if s = '-' then -n else n))
      else none
    else none

/-- The time of day behind a date, up to the end: a `T` or spacing, hours, minutes and seconds,
    perhaps a fraction, perhaps an offset. -/
def clock? (date : TimeParts) (cs : List Char) : Option TimeParts := do
  let isGap (c : Char) : Bool := c = ' ' || c = '\t'
  let rest ←
    match cs with
    | 'T' :: rest => some rest
    | 't' :: rest => some rest
    | c :: rest => if isGap c then some (rest.dropWhile isGap) else none
    | [] => none
  let (hour, rest) ← number? 1 2 rest
  let rest ← char? (· = ':') rest
  let (minute, rest) ← number? 2 2 rest
  let rest ← char? (· = ':') rest
  let (second, rest) ← number? 2 2 rest
  let (fraction, rest) :=
    match rest with
    | '.' :: more => (more.takeWhile isDigit, more.dropWhile isDigit)
    | more => ([], more)
  let offset ← offset? rest
  some { date with clock := some (hour, minute, second), fraction, offset }

/-- The parts of a time: a date, perhaps with a time of day. Months and days may have one digit. -/
def timeParts? (cs : List Char) : Option TimeParts := do
  let (year, rest) ← number? 4 4 cs
  let rest ← char? (· = '-') rest
  let (month, rest) ← number? 1 2 rest
  let rest ← char? (· = '-') rest
  let (day, rest) ← number? 1 2 rest
  let date : TimeParts := { year, month, day }
  if rest.isEmpty then some date else clock? date rest

/-- Does a plain scalar look like a time? A date alone needs two digits for month and day. -/
def isTimestamp (cs : List Char) : Bool :=
  match timeParts? cs with
  | some t => t.clock.isSome || cs.length = 10
  | none => false

/-! ## 5. The kind of a scalar -/

/-- The marks of tags, anchors and aliases, which alone are reserved. -/
def reservedMarks : List (List Char) := [['!'], ['&'], ['*']]

/-- What a text looks like. -/
def tagOfWhole (cs : List Char) : Tag :=
  if isBool cs then .bool
  else if isFloat cs then .float
  else if isInt cs then .int
  else if cs = "<<".toList then .merge
  else if isNull cs then .null
  else if isTimestamp cs then .timestamp
  else if cs = "=".toList then .value
  else if reservedMarks.contains cs then .other
  else .str

/-- A text without a line feed at its end, unless that is all of it. -/
def withoutLastFeed (cs : List Char) : List Char :=
  if 1 < cs.length && cs.getLast? = some '\n' then cs.dropLast else cs

/-- What a plain scalar looks like. A line feed at the end does not matter. -/
def tagOf (cs : List Char) : Tag :=
  tagOfWhole (withoutLastFeed cs)

end Conform.Markup.Pattern
