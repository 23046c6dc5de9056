import Conform.Text.CodePoint
import Conform.Text.DecimalDigit
import Conform.Text.Printable

/-!
# Quoted names and quoted bytes

How file names and byte strings are shown inside messages: between apostrophes, or between double
quotes if they hold an apostrophe and no double quote, with everything that is not printable
written as an escape.
-/

namespace Conform.Quoted

/-! ## 1. One character -/

/-- The mark around a quoted list of characters. -/
def mark (cs : List Char) : Char :=
  if cs.contains '\'' && !cs.contains '"' then '"' else '\''

/-- The escapes that a name and a byte string share: the backslash, the mark, and the three
    controls that have a letter. -/
def shared? (m c : Char) : Option (List Char) :=
  if c = '\\' then some ['\\', '\\']
  else if c = m then some ['\\', c]
  else if c = '\t' then some ['\\', 't']
  else if c = '\n' then some ['\\', 'n']
  else if c = '\r' then some ['\\', 'r']
  else none

/-- A character of a name: unprintable ones as `\xNN`, `\uNNNN` or `\UNNNNNNNN`. -/
def nameChar (m c : Char) : List Char :=
  match shared? m c with
  | some e => e
  | none =>
    if isPrintable c then [c]
    else if c.toNat < 0x100 then '\\' :: 'x' :: hexDigits lowerDigit c.toNat 2
    else if c.toNat < 0x10000 then '\\' :: 'u' :: hexDigits lowerDigit c.toNat 4
    else '\\' :: 'U' :: hexDigits lowerDigit c.toNat 8

/-- A byte of a byte string: all but printable ASCII as `\xNN`. -/
def byteChar (m c : Char) : List Char :=
  match shared? m c with
  | some e => e
  | none =>
    if 0x20 ≤ c.toNat && c.toNat < 0x7F then [c]
    else '\\' :: 'x' :: hexDigits lowerDigit c.toNat 2

/-! ## 2. The whole -/

/-- A name in quotes. -/
def name (cs : List Char) : List Char :=
  let m := mark cs
  m :: (cs.flatMap (nameChar m) ++ [m])

/-- A byte string in quotes, behind the letter `b`. -/
def bytes (bs : List UInt8) : List Char :=
  let cs := bs.map fun b => Char.ofNat b.toNat
  let m := mark cs
  'b' :: m :: (cs.flatMap (byteChar m) ++ [m])

end Conform.Quoted
