import Conform.Text.CodePoint

/-!
# Reports

A report is a list of lines, perhaps under an introduction. A report is nested in another one by
adding its introduction as a line and its own lines behind two spaces; so the depth of a line can be
read off its indentation.
-/

namespace Conform

/-- What a nested line starts with. -/
def indentation : Text := Text.ofChars [' ', ' ']

/-- A list of lines, perhaps under an introduction. -/
structure Report where
  introduction : Text := []
  lines : List Text := []
  deriving DecidableEq, Repr, Inhabited

namespace Report

/-- The report with one more line. -/
def add (r : Report) (line : Text) : Report :=
  { r with lines := r.lines ++ [line] }

/-- The report with another one nested in it under an introduction. The introduction of the other
    report is not used. -/
def nest (r : Report) (introduction : Text) (inner : Report) : Report :=
  { r with lines := r.lines ++ introduction :: inner.lines.map (indentation ++ ·) }

/-- Has the report any lines? -/
def hasLines (r : Report) : Bool :=
  !r.lines.isEmpty

/-- The report as one text. Under an introduction the lines are indented. -/
def render (r : Report) : Text :=
  let feed := Text.ofChars ['\n']
  if r.introduction.isEmpty then Text.join feed r.lines
  else r.introduction ++ feed ++ indentation ++ Text.join (feed ++ indentation) r.lines

end Report

end Conform
