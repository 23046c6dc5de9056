/-!
# The source of a document

What a document is before it is read: a list of characters with places. A text is a source only if
all its characters may stand in a document. Lines end in six ways: with a line feed, a return, both
together, the next-line control, or one of the two separators of Unicode. The separators stay as
they are; all other breaks are read as a line feed, each where it is met.
-/

namespace Conform.Markup

/-! ## 1. Characters -/

/-- May the character stand in a document? -/
def isAllowed (c : Char) : Bool :=
  let n := c.toNat
  n = 0x09 || n = 0x0A || n = 0x0D || (0x20 ≤ n && n ≤ 0x7E) || n = 0x85 ||
    (0xA0 ≤ n && n ≤ 0xD7FF) || (0xE000 ≤ n && n ≤ 0xFFFD) || 0x10000 ≤ n

/-- May all characters of a text stand in a document? -/
def isSource (text : List Char) : Bool :=
  text.all isAllowed

/-- Does the character end a line? -/
def isBreak (c : Char) : Bool :=
  c = '\n' || c = '\r' || c = '\x85' || c = '\u2028' || c = '\u2029'

/-- A space or a tab. -/
def isSpacing (c : Char) : Bool :=
  c = ' ' || c = '\t'

/-- Does a word end in front of these characters: at spacing, at a break, at the end? -/
def endsWord : List Char → Bool
  | [] => true
  | c :: _ => isSpacing c || isBreak c

/-- Does a word end in front of these characters if tabs are part of words? -/
def endsField : List Char → Bool
  | [] => true
  | c :: _ => c = ' ' || isBreak c

/-- Does a line end in front of these characters? -/
def endsLine : List Char → Bool
  | [] => true
  | c :: _ => isBreak c

/-- Does a marker of three hyphens or three points stand alone in front of these characters? -/
def startsMarker : List Char → Bool
  | '-' :: '-' :: '-' :: rest => endsWord rest
  | '.' :: '.' :: '.' :: rest => endsWord rest
  | _ => false

/-- A letter, a digit, a hyphen or an underscore of ASCII: what names are made of. -/
def isNameChar (c : Char) : Bool :=
  let n := c.toNat
  (48 ≤ n && n ≤ 57) || (65 ≤ n && n ≤ 90) || (97 ≤ n && n ≤ 122) || c = '-' || c = '_'

/-! ## 2. Line breaks -/

/-- What a break is read as. -/
def readBreak (c : Char) : Char :=
  if c = '\r' || c = '\x85' then '\n' else c

/-- Is a character only the first half of a break, a return in front of a line feed? The line feed
    then ends the line. -/
def isHalfBreak (c : Char) (rest : List Char) : Bool :=
  c = '\r' && rest.head? = some '\n'

/-! ## 3. Places -/

/-- Where a character stands. A byte-order mark takes no column, and a break is one character, also
    if it is written with two. -/
structure Place where
  index : Nat := 0
  line : Nat := 0
  column : Nat := 0
  deriving DecidableEq, Repr, Inhabited

/-- The place behind a character. -/
def Place.next (p : Place) (c : Char) : Place :=
  if isBreak c then ⟨p.index + 1, p.line + 1, 0⟩
  else if c = '\uFEFF' then { p with index := p.index + 1 }
  else { p with index := p.index + 1, column := p.column + 1 }

/-- What is left of a source, and the place of its first character. -/
structure Cursor where
  rest : List Char
  place : Place := {}
  deriving Repr, Inhabited

namespace Cursor

/-- The cursor behind some characters that have been taken. -/
def past (c : Cursor) (taken rest : List Char) : Cursor :=
  ⟨rest, taken.foldl Place.next c.place⟩

/-- The cursor behind so many characters. -/
def drop (c : Cursor) (n : Nat) : Cursor :=
  c.past (c.rest.take n) (c.rest.drop n)

/-- The characters of a class in front, and the cursor behind them. -/
def takeWhile (c : Cursor) (p : Char → Bool) : List Char × Cursor :=
  (c.rest.takeWhile p, c.past (c.rest.takeWhile p) (c.rest.dropWhile p))

/-- The cursor behind the characters of a class. -/
def skipWhile (c : Cursor) (p : Char → Bool) : Cursor :=
  (c.takeWhile p).2

/-- The cursor behind the spaces in front. -/
def skipSpaces (c : Cursor) : Cursor :=
  c.skipWhile (· = ' ')

/-- The cursor behind the break in front, unless the source ends there. -/
def skipBreak (c : Cursor) : Cursor :=
  match c.rest with
  | [] => c
  | b :: rest => ⟨if isHalfBreak b rest then rest.drop 1 else rest, c.place.next b⟩

end Cursor

end Conform.Markup
