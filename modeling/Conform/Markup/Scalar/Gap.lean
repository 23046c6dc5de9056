import Conform.Markup.Source

/-!
# Gaps: the spacing inside a scalar

A scalar that runs over several lines is read word by word, and what stands between two words is a
gap. A gap within a line is kept. A gap with line breaks is folded: the spacing around the breaks
is dropped, a single line feed becomes a space, and of several breaks the first line feed
disappears.
-/

namespace Conform.Markup

/-! ## 1. Gaps -/

/-- What has been read since the last word. -/
inductive Gap where
  | none
  /-- Spacing within the line, newest first. -/
  | spacing (reversed : List Char)
  /-- A first break, unless it was escaped, and the breaks after it, newest first. -/
  | breaks (first : Option Char) (reversed : List Char)
  deriving DecidableEq, Repr, Inhabited

namespace Gap

/-- The gap after one more spacing character. Around breaks it is dropped. -/
def addSpacing (c : Char) : Gap → Gap
  | .none => .spacing [c]
  | .spacing cs => .spacing (c :: cs)
  | .breaks f cs => .breaks f cs

/-- The gap after one more break. The spacing in front of the first break is dropped. -/
def addBreak (c : Char) : Gap → Gap
  | .breaks f cs => .breaks f (c :: cs)
  | _ => .breaks (some c) []

/-- Does the gap run over the end of a line? -/
def hasBreak : Gap → Bool
  | .breaks _ _ => true
  | _ => false

/-! ## 2. Folding -/

/-- What a gap adds to the scalar it stands in. -/
def folded : Gap → List Char
  | .none => []
  | .spacing cs => cs.reverse
  | .breaks .none cs => cs.reverse
  | .breaks (some f) cs =>
    if f != '\n' then f :: cs.reverse
    else if cs.isEmpty then [' ']
    else cs.reverse

end Gap

end Conform.Markup
