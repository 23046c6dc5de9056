import Conform.Text.Blank
import Conform.Text.DecimalDigit

/-!
# Numerals: integers written in a base

This file fixes how a run of digits is read as an integer and how an integer is written. Blanks
around a numeral, a sign, the marker of its base and the digits of any script are accepted; base
ten has a limit of `digitLimit` digits in both directions, the other bases have none.
-/

namespace Conform.Numeral

/-! ## 1. Reading -/

/-- The most decimal digits that are read or written. -/
def digitLimit : Nat := 4300

/-- A numeral in ASCII: blanks and digits of other scripts become their plain forms. -/
def plain (cs : List Char) : List Char :=
  cs.map fun c =>
    if c.toNat < 127 then c
    else if isWideBlank c then ' '
    else ((wideDigit? c).map lowerDigit).getD '?'

/-- The value of a list of digits, the most significant first. -/
def ofDigits (base : Nat) (ds : List Nat) : Nat :=
  ds.foldl (fun n d => n * base + d) 0

/-- The number a non-empty run of digits denotes. Decimal digits beyond the limit denote none. -/
def natural? (base : Nat) (cs : List Char) : Option Nat :=
  if cs.isEmpty || (base = 10 && digitLimit < cs.length) then none
  else (cs.mapM (baseDigit? base)).map (ofDigits base)

/-- A sign in front, and what follows it. -/
def splitSign : List Char → Bool × List Char
  | '-' :: cs => (true, cs)
  | '+' :: cs => (false, cs)
  | cs => (false, cs)

/-- The digits behind the marker of a base (`0b`, `0o`, `0x`), which may be absent. -/
def dropMarker (base : Nat) : List Char → List Char
  | '0' :: c :: cs =>
    let marked :=
      (base = 2 && (c = 'b' || c = 'B')) || (base = 8 && (c = 'o' || c = 'O')) ||
        (base = 16 && (c = 'x' || c = 'X'))
    if marked then cs else '0' :: c :: cs
  | cs => cs

/-- The integer a numeral denotes in a base. -/
def integer? (base : Nat) (cs : List Char) : Option Int :=
  let (negative, rest) := splitSign (trimChars isPlainBlank (plain cs))
  (natural? base (dropMarker base rest)).map fun n => if negative then -(n : Int) else n

/-- The pieces of a list between the occurrences of a separator. -/
def splitOn (separator : Char) : List Char → List (List Char)
  | [] => [[]]
  | c :: cs =>
    if c = separator then [] :: splitOn separator cs
    else
      match splitOn separator cs with
      | [] => [[c]]
      | p :: ps => (c :: p) :: ps

/-- The integer of groups in base sixty, each a decimal numeral, with colons between them. -/
def sexagesimal? (cs : List Char) : Option Int :=
  ((splitOn ':' cs).mapM (integer? 10)).map fun groups => groups.foldl (fun n d => n * 60 + d) 0

/-! ## 2. Writing -/

/-- The decimal form of an integer. -/
def written (i : Int) : List Char :=
  if i < 0 then '-' :: decimalDigits i.natAbs else decimalDigits i.natAbs

/-- Has an integer few enough digits to be written? -/
def isWritable (i : Int) : Bool :=
  i.natAbs < Nat.pow 10 digitLimit

/-- The decimal form of an integer, unless it has too many digits. -/
def written? (i : Int) : Option (List Char) :=
  if isWritable i then some (written i) else none

end Conform.Numeral
