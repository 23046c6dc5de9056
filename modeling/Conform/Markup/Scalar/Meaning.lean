import Conform.Atom
import Conform.Base64
import Conform.Fault
import Conform.Markup.Pattern

/-!
# The meaning of scalars

Which value the text of a scalar denotes under a tag. Scalars that were recognised by their looks
nearly always denote a value; under an explicit tag the text may be anything, and each kind has its
own way to fail.
-/

namespace Conform.Markup.Scalar

/-! ## 1. Numbers -/

/-- A number without its underscores. -/
def dense (cs : List Char) : List Char :=
  cs.filter (· != '_')

/-- An integer that has been read, with one more sign. -/
def signed (negative : Bool) : Option Int → Except Fault Atom
  | some i => .ok (.int (if negative then -i else i))
  | none => .error .noSuchValue

/-- The integer of a text: base two behind `0b`, base sixteen behind `0x`, base eight behind
    another zero, base sixty if there are colons, else base ten. -/
def intOf (text : Text) : Except Fault Atom :=
  match text.chars? with
  | none => .error .noSuchValue
  | some cs =>
    let (negative, body) := Numeral.splitSign (dense cs)
    match body with
    | [] => .error .missingDigits
    | ['0'] => .ok (.int 0)
    | '0' :: 'b' :: ds => signed negative (Numeral.integer? 2 ds)
    | '0' :: 'x' :: ds => signed negative (Numeral.integer? 16 ds)
    | '0' :: _ => signed negative (Numeral.integer? 8 body)
    | _ =>
      if body.contains ':' then signed negative (Numeral.sexagesimal? body)
      else signed negative (Numeral.integer? 10 body)

/-- The double of a text. A not-a-number gets the given origin, unless it is spelled `.nan`. -/
def floatOf (origin : Double.Origin) (text : Text) : Except Fault Atom :=
  match text.chars? with
  | none => .error .noSuchValue
  | some cs =>
    let all := (dense cs).map Char.toLower
    let (negative, body) := Numeral.splitSign all
    let result (d : Double) : Except Fault Atom :=
      .ok (.float ((if negative then d.neg else d).withOrigin origin))
    if all.isEmpty then .error .missingDigits
    else if body = ".inf".toList then .ok (.float (.infinite negative))
    else if body = ".nan".toList then .ok (.float (.nan .spelled))
    else if body.contains ':' then
      match (Numeral.splitOn ':' body).mapM Double.numeral? with
      | none => .error .noSuchValue
      | some groups =>
        match Double.sumSexagesimal? (.zero false) 1 groups.reverse with
        | none => .error .outOfRange
        | some d => result d
    else
      match Double.numeral? body with
      | none => .error .noSuchValue
      | some d => result d

/-! ## 2. Words, bytes and times -/

/-- The truth value of a word, in any case. -/
def boolOf (text : Text) : Except Fault Atom :=
  match text.chars? with
  | none => .error .noSuchWord
  | some cs =>
    match Pattern.boolWords.find? fun w => w.1 = cs.map Char.toLower with
    | some w => .ok (.bool w.2)
    | none => .error .noSuchWord

/-- The bytes of a text in base 64. -/
def bytesOf (text : Text) : Except Fault Atom :=
  match text.chars? with
  | none => .error .malformed
  | some cs =>
    if cs.all (·.toNat < 128) then
      match Base64.decode? cs with
      | some bs => .ok (.bytes bs)
      | none => .error .malformed
    else .error .malformed

/-- The microseconds of a fraction of a second; digits beyond the sixth are cut. -/
def microsOf (fraction : List Char) : Nat :=
  let six := (fraction ++ List.replicate 6 '0').take 6
  Numeral.ofDigits 10 (six.map fun c => c.toNat - 48)

/-- The day or time with these parts, if they name one. -/
def timeOf? (t : Pattern.TimeParts) : Option Atom :=
  match t.clock with
  | none => (Day.of? t.year t.month t.day).map .day
  | some (hour, minute, second) => do
    let offset ←
      match t.offset with
      | none => some none
      | some m => (Offset.of? m).map some
    let day ← Day.of? t.year t.month t.day
    let clock ← Clock.of? hour minute second (microsOf t.fraction)
    some (.moment ⟨day, clock, offset⟩)

/-- The day or time of a text. -/
def momentOf (text : Text) : Except Fault Atom :=
  match text.chars?.bind fun cs => Pattern.timeParts? (Pattern.withoutLastFeed cs) with
  | none => .error .noSuchTime
  | some t =>
    match timeOf? t with
    | some a => .ok a
    | none => .error .noSuchValue

/-! ## 3. All kinds -/

/-- The value of a text under the tag of a scalar; `none` if the tag is not one of a scalar. -/
def valueOf? (origin : Double.Origin) (tag : Tag) (text : Text) : Option (Except Fault Atom) :=
  match tag with
  | .null => some (.ok .null)
  | .bool => some (boolOf text)
  | .int => some (intOf text)
  | .float => some (floatOf origin text)
  | .binary => some (bytesOf text)
  | .timestamp => some (momentOf text)
  | .str => some (.ok (.str text))
  | _ => none

end Conform.Markup.Scalar
