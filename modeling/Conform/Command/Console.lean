import Conform.Text.CodePoint
import Conform.Text.Columns

/-!
# The console

How a message is printed: as it is, on lines of its own, but without the controls that would ring,
move or clear, and with every tab filled up to the next multiple of eight columns. Lines are neither
wrapped nor cropped.
-/

namespace Conform.Command.Console

/-- The controls that are not printed: bell, backspace, vertical tab, form feed, return. -/
def dropped : List Nat := [7, 8, 11, 12, 13]

/-- The distance between tab stops. -/
def tabWidth : Nat := 8

/-- Is the character printed? -/
def isPrinted (c : Char) : Bool :=
  !dropped.contains c.toNat

/-- The number of blanks in place of a tab behind a part of a line. The part starts at a tab stop. It
    is measured with one blank behind it; what is missing to the next stop follows. -/
def tabBlanks (part : List Char) : Nat :=
  let width := textColumns (part ++ [' '])
  if width % tabWidth = 0 then 1 else 1 + (tabWidth - width % tabWidth)

/-- A text with its tabs filled up. `reversed` is the part of the line since the last tab stop,
    newest first. -/
def fillTabs (reversed : List Char) : List Char → List Char
  | [] => reversed.reverse
  | c :: cs =>
    if c = '\n' then reversed.reverse ++ '\n' :: fillTabs [] cs
    else if c = '\t' then
      reversed.reverse ++ List.replicate (tabBlanks reversed.reverse) ' ' ++ fillTabs [] cs
    else fillTabs (c :: reversed) cs

/-- A message as it is printed. -/
def printed (cs : List Char) : List Char :=
  fillTabs [] (cs.filter isPrinted) ++ ['\n']

/-- A text as it is printed. A lone surrogate cannot be. -/
def print? (t : Text) : Option (List Char) :=
  t.chars?.map printed

end Conform.Command.Console
