/-!
# Text: characters and lone surrogates

Everything a record holds, and everything a report says about it, is text. This file fixes what a
text is: a list of code points, each a character or a lone surrogate. A surrogate cannot stand in
a file; it enters only through a numeric escape in a quoted scalar, it never pairs with its
neighbour, and it leaves only through such an escape again. So the texts of files are lists of
characters, and the texts of scalars, keys and report lines are `Text`.
-/

namespace Conform

/-! ## 1. Code points -/

/-- One unit of text: a character, or the surrogate `0xD800 + offset`, which no character is. -/
inductive CodePoint where
  | char (c : Char)
  | surrogate (offset : Fin 0x800)
  deriving DecidableEq, Repr, Inhabited

namespace CodePoint

/-- The number of a code point. -/
def toNat : CodePoint → Nat
  | .char c => c.toNat
  | .surrogate s => 0xD800 + s.val

/-- The code point with a number, if there is one: numbers end before `0x110000`. -/
def ofNat? (n : Nat) : Option CodePoint :=
  if h : 0xD800 ≤ n ∧ n < 0xE000 then
    some (.surrogate ⟨n - 0xD800, by omega⟩)
  else if h : n.isValidChar then
    some (.char (Char.ofNatAux n h))
  else
    none

/-- The character a code point is, unless it is a surrogate. -/
def char? : CodePoint → Option Char
  | .char c => some c
  | .surrogate _ => none

/-- Is the code point this character? -/
def is (p : CodePoint) (c : Char) : Bool :=
  p = .char c

end CodePoint

/-! ## 2. Texts -/

/-- A text: what a scalar holds, and what a report line says. -/
abbrev Text := List CodePoint

namespace Text

/-- The text of a list of characters. -/
def ofChars (cs : List Char) : Text :=
  cs.map .char

/-- The text of a string. -/
def ofString (s : String) : Text :=
  ofChars s.toList

/-- The characters of a text that holds no surrogate. -/
def chars? (t : Text) : Option (List Char) :=
  t.mapM CodePoint.char?

/-- The string of a text, with a replacement character for each surrogate. -/
def toString (t : Text) : String :=
  String.ofList (t.map fun p => p.char?.getD '\uFFFD')

/-- The texts of a list, with a separator between neighbours. -/
def join (separator : Text) (parts : List Text) : Text :=
  List.intercalate separator parts

instance : Coe String Text := ⟨ofString⟩

/-- A text made of characters reads back as those characters. -/
@[simp] theorem chars?_ofChars (cs : List Char) : chars? (ofChars cs) = some cs := by
  induction cs with
  | nil => rfl
  | cons c cs ih =>
    simp only [chars?, ofChars, List.map_cons, List.mapM_cons] at ih ⊢
    simp [CodePoint.char?, ih]

end Text

end Conform
