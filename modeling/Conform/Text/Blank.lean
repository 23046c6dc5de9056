/-!
# Blank characters

Which characters count as blank space around numbers and settings. The set is the White_Space
class of Unicode together with the four separators `0x1C` to `0x1F`.
-/

namespace Conform

/-! ## 1. The table -/

/-- The ranges of blank characters beyond ASCII, both ends included. -/
def blankRanges : List (Nat × Nat) :=
  [(0x85, 0x85), (0xA0, 0xA0), (0x1680, 0x1680), (0x2000, 0x200A), (0x2028, 0x2029),
   (0x202F, 0x202F), (0x205F, 0x205F), (0x3000, 0x3000)]

/-- Is the number within one of the ranges? -/
def withinRanges (ranges : List (Nat × Nat)) (n : Nat) : Bool :=
  ranges.any fun r => r.1 ≤ n && n ≤ r.2

/-! ## 2. The classes -/

/-- A blank character of ASCII: space, tab, line feed, vertical tab, form feed, return. -/
def isPlainBlank (c : Char) : Bool :=
  c = ' ' || (9 ≤ c.toNat && c.toNat ≤ 13)

/-- A blank character beyond ASCII. -/
def isWideBlank (c : Char) : Bool :=
  withinRanges blankRanges c.toNat

/-- Any blank character. -/
def isBlank (c : Char) : Bool :=
  isPlainBlank c || (0x1C ≤ c.toNat && c.toNat ≤ 0x1F) || isWideBlank c

/-- A list of characters without the members of a class at either end. -/
def trimChars (p : Char → Bool) (cs : List Char) : List Char :=
  ((cs.dropWhile p).reverse.dropWhile p).reverse

end Conform
