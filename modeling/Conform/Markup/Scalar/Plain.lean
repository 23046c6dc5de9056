import Conform.Markup.Scalar.Gap

/-!
# Plain scalars

Scalars without marks around them. A plain scalar starts with a character that starts nothing else
and ends where its line would mean something else: at a colon that ends a word, at a comment, at an
indicator of a flow collection, at a marker of the document, or on a line that is not indented
enough.
-/

namespace Conform.Markup

/-! ## 1. Where plain scalars start and end -/

/-- The characters that start something other than a plain scalar. -/
def indicators : List Char := "-?:,[]\x7b\x7d#&*!|>'\"%@`".toList

/-- May a plain scalar start here? -/
def startsPlain (inFlow : Bool) : List Char → Bool
  | [] => false
  | c :: rest =>
    (!isSpacing c && !isBreak c && !indicators.contains c) ||
      (!endsWord rest && (c = '-' || (!inFlow && (c = '?' || c = ':'))))

/-- Does a plain scalar end in front of this character and what follows it? -/
def endsPlain (inFlow : Bool) (c : Char) (rest : List Char) : Bool :=
  c = '\t' ||
    (c = ':' && (endsWord rest ||
      (inFlow && ((rest.head?.map fun d => ",[]\x7b\x7d".toList.contains d).getD false)))) ||
    (inFlow && ",?[]\x7b\x7d".toList.contains c)

/-! ## 2. Reading -/

/-- A plain scalar that has been read: its text, whether a line has ended since its last word, and
    where reading goes on. -/
structure PlainScalar where
  text : List Char
  broken : Bool
  after : Cursor
  deriving Repr

/-- Reads on in a plain scalar that must be indented by at least `indent` columns in block
    context. `reversed` is its text so far, newest first. -/
def readPlainFrom (inFlow : Bool) (indent : Int) (gap : Gap) (reversed : List Char) :
    List Char → Place → PlainScalar
  | [], p => ⟨reversed.reverse, gap.hasBreak, ⟨[], p⟩⟩
  | c :: cs, p =>
    if c = ' ' then readPlainFrom inFlow indent (gap.addSpacing c) reversed cs (p.next c)
    else if isBreak c then
      if isHalfBreak c cs then readPlainFrom inFlow indent gap reversed cs p
      else if startsMarker cs then ⟨reversed.reverse, true, ⟨cs, p.next c⟩⟩
      else readPlainFrom inFlow indent (gap.addBreak (readBreak c)) reversed cs (p.next c)
    else
      let stops := endsPlain inFlow c cs ||
        (gap != .none && (c = '#' || (!inFlow && (p.column : Int) < indent)))
      if stops then ⟨reversed.reverse, gap.hasBreak, ⟨c :: cs, p⟩⟩
      else
        readPlainFrom inFlow indent .none (c :: (gap.folded.reverse ++ reversed)) cs (p.next c)

/-- Reads a plain scalar. -/
def readPlain (inFlow : Bool) (indent : Int) (c : Cursor) : PlainScalar :=
  readPlainFrom inFlow indent .none [] c.rest c.place

end Conform.Markup
