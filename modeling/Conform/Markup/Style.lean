import Conform.Text.CodePoint
import Conform.Markup.Pattern

/-!
# Styles of written scalars

A string is written plain if that reads back as the same string, else between single quotes if these
can hold it, else between double quotes, which can hold everything. This file fixes what each style
can hold.
-/

namespace Conform.Markup.Style

/-! ## 1. Character classes -/

/-- A line break, also the ones that do not end a line of a source as they are. -/
def isAnyBreak (c : Char) : Bool :=
  c = '\n' || c = '\x85' || c = '\u2028' || c = '\u2029'

/-- A character that is shown as it is, breaks apart. -/
def isShown (c : Char) : Bool :=
  let n := c.toNat
  (0x20 ≤ n && n ≤ 0x7E) ||
    (((0xA0 ≤ n && n ≤ 0xD7FF) || (0xE000 ≤ n && n ≤ 0xFFFD) ||
      (0x10000 ≤ n && n < 0x10FFFF)) && n != 0xFEFF && !isAnyBreak c)

/-- A character at which a word ends. -/
def isGap (c : Char) : Bool :=
  c = ' ' || isAnyBreak c

/-- Does a word end in front of these characters? -/
def atGap : List Char → Bool
  | [] => true
  | c :: _ => isGap c

/-! ## 2. Plain -/

/-- The characters with which no plain scalar starts. -/
def openers : List Char := "#,[]\x7b\x7d&*!|>'\"%@`".toList

/-- Can a plain scalar start like this? -/
def startsPlainly : List Char → Bool
  | [] => false
  | '-' :: '-' :: '-' :: _ => false
  | '.' :: '.' :: '.' :: _ => false
  | c :: cs =>
    !openers.contains c && c != ' ' && !((c = '?' || c = ':' || c = '-') && atGap cs)

/-- Does nothing behind the first character end a plain scalar: no colon at the end of a word, no
    hash sign at its start? -/
def goesOnPlainly (previous : Char) : List Char → Bool
  | [] => true
  | c :: cs =>
    !(c = ':' && atGap cs) && !(c = '#' && isGap previous) && goesOnPlainly c cs

/-- Can a text stand without quotes in block context, whatever it is read as? -/
def fitsPlain : List Char → Bool
  | [] => false
  | c :: cs =>
    (c :: cs).all isShown && startsPlainly (c :: cs) && goesOnPlainly c cs &&
      (c :: cs).getLast? != some ' '

/-- Is a text written plain: can it stand without quotes, and is it read as a string? -/
def isPlain (cs : List Char) : Bool :=
  fitsPlain cs && Pattern.tagOf cs = .str

/-! ## 3. Single quotes -/

/-- Does a space stand next to a break? -/
def spaceAtBreak : List Char → Bool
  | a :: b :: cs =>
    (a = ' ' && isAnyBreak b) || (isAnyBreak a && b = ' ') || spaceAtBreak (b :: cs)
  | _ => false

/-- Can a text stand between single quotes? -/
def fitsSingle (cs : List Char) : Bool :=
  cs.all (fun c => isShown c || isAnyBreak c) && !spaceAtBreak cs

/-! ## 4. The choice -/

/-- A string with its style. -/
inductive Styled where
  | plain (cs : List Char)
  | single (cs : List Char)
  | double (t : Text)
  deriving DecidableEq, Repr

/-- The style of a string. -/
def ofText (t : Text) : Styled :=
  match t.chars? with
  | none => .double t
  | some cs =>
    if isPlain cs then .plain cs
    else if fitsSingle cs then .single cs
    else .double t

/-- Has a text a line break? -/
def hasBreak (t : Text) : Bool :=
  t.any fun p => p.char?.any isAnyBreak

end Conform.Markup.Style
