import Conform.Text.DecimalDigit

/-!
# Bytes as letters

Base64: six bits to a letter, four letters to three bytes. Writing breaks the letters into lines
of 76 and ends every line; reading is lenient, as mail is: whatever is not a letter is skipped, and
padding ends the text only where it completes a group of four.
-/

namespace Conform.Base64

/-! ## 1. Letters -/

/-- The letter of six bits. -/
def letter (v : Nat) : Char :=
  if v < 26 then Char.ofNat (65 + v)
  else if v < 52 then Char.ofNat (97 + (v - 26))
  else if v < 62 then Char.ofNat (48 + (v - 52))
  else if v = 62 then '+'
  else '/'

/-- The six bits of a letter. -/
def bits? (c : Char) : Option Nat :=
  let n := c.toNat
  if 65 ≤ n && n ≤ 90 then some (n - 65)
  else if 97 ≤ n && n ≤ 122 then some (n - 97 + 26)
  else if 48 ≤ n && n ≤ 57 then some (n - 48 + 52)
  else if c = '+' then some 62
  else if c = '/' then some 63
  else none

/-! ## 2. Writing -/

/-- The letters of some bytes, padded to a multiple of four. -/
def letters : List UInt8 → List Char
  | [] => []
  | [a] =>
    let n := a.toNat
    [letter (n / 4), letter (n % 4 * 16), '=', '=']
  | [a, b] =>
    let n := a.toNat * 256 + b.toNat
    [letter (n / 1024), letter (n / 16 % 64), letter (n % 16 * 4), '=']
  | a :: b :: c :: rest =>
    let n := (a.toNat * 256 + b.toNat) * 256 + c.toNat
    letter (n / 262144) :: letter (n / 4096 % 64) :: letter (n / 64 % 64) :: letter (n % 64) ::
      letters rest

/-- The lines of some bytes: 57 bytes make 76 letters. The number bounds the lines. -/
def lines : Nat → List UInt8 → List Char
  | 0, _ => []
  | n + 1, bytes =>
    if bytes.isEmpty then [] else letters (bytes.take 57) ++ ['\n'] ++ lines n (bytes.drop 57)

/-- The written form of some bytes: every line of letters ends with a line feed. -/
def encode (bytes : List UInt8) : List Char :=
  lines bytes.length bytes

/-! ## 3. Reading -/

/-- How far a group of four letters has been read. -/
structure Group where
  /-- Letters read of the group. -/
  count : Nat := 0
  /-- Bits read that do not make a byte yet. -/
  left : Nat := 0
  /-- Padding read since the last letter. -/
  pads : Nat := 0

/-- Reads the rest of a text behind a part of a group. There is no result if the text ends within
    a group that padding does not complete. -/
def decodeFrom (g : Group) : List Char → Option (List UInt8)
  | [] => if g.count = 0 then some [] else none
  | c :: cs =>
    if c = '=' then
      if 2 ≤ g.count && 4 ≤ g.count + g.pads + 1 then some []
      else decodeFrom { g with pads := if 2 ≤ g.count then g.pads + 1 else g.pads } cs
    else
      match bits? c with
      | none => decodeFrom g cs
      | some v =>
        match g.count with
        | 0 => decodeFrom { count := 1, left := v } cs
        | 1 => (decodeFrom { count := 2, left := v % 16 } cs).map
            (UInt8.ofNat (g.left * 4 + v / 16) :: ·)
        | 2 => (decodeFrom { count := 3, left := v % 4 } cs).map
            (UInt8.ofNat (g.left * 16 + v / 4) :: ·)
        | _ => (decodeFrom {} cs).map (UInt8.ofNat (g.left * 64 + v) :: ·)

/-- The bytes that a text denotes. -/
def decode? (cs : List Char) : Option (List UInt8) :=
  decodeFrom {} cs

end Conform.Base64
