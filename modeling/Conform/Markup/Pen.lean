import Conform.Text.CodePoint
import Conform.Text.DecimalDigit
import Conform.Markup.Style

/-!
# The pen: writing with columns

What a piece of a document looks like depends on where it starts: at which column, behind a space or
not, and with nothing but indentation and indicators before it on its line. The pen holds that
state, and a piece of writing is a function of it. Lines are folded at single spaces once they are
longer than `width`.
-/

namespace Conform.Markup

/-! ## 1. Pieces -/

/-- Where the next character is written. -/
structure Pen where
  column : Nat := 0
  /-- Nothing has to be put between this and the next word. -/
  spaced : Bool := true
  /-- There are only indentation and block indicators on this line. -/
  fresh : Bool := true
  deriving DecidableEq, Repr, Inhabited

/-- A piece of writing. -/
abbrev Piece := Pen → List Char × Pen

namespace Piece

/-- Nothing. -/
def nothing : Piece := fun p => ([], p)

/-- One piece behind another. -/
def andThen (a b : Piece) : Piece := fun p =>
  let (s, p) := a p
  let (t, p) := b p
  (s ++ t, p)

/-- A piece that depends on where it starts. -/
def withPen (f : Pen → Piece) : Piece := fun p => f p p

/-- Goes to an indentation: on the same line if only that is missing, else on a new line. -/
def indent (n : Nat) : Piece := fun p =>
  let stays := p.fresh && (p.column < n || (p.column = n && p.spaced))
  let (front, column) := if stays then ([], p.column) else (['\n'], 0)
  (front ++ List.replicate (n - column) ' ',
    { column := max column n
      spaced := if column < n then true else if stays then p.spaced else true
      fresh := if stays then p.fresh else true })

/-- An indicator, behind a space if it needs one. -/
def indicator (s : List Char) (needsSpace spaced block : Bool) : Piece := fun p =>
  let s := if p.spaced || !needsSpace then s else ' ' :: s
  (s, { column := p.column + s.length, spaced, fresh := p.fresh && block })

/-- A word behind a space, such as an anchor or a tag. -/
def word (s : List Char) : Piece := indicator s true false false

end Piece

/-! ## 2. Folding -/

/-- The column behind which lines are folded. -/
def width : Nat := 80

/-- A line break and an indentation. -/
def newLine (indent : Nat) : List Char := '\n' :: List.replicate indent ' '

/-- The characters of a plain scalar behind some spaces. `folds` says whether it may be folded. -/
def plainFrom (folds : Bool) (indent : Nat) (spaces column : Nat) :
    List Char → List Char × Nat
  | [] => (List.replicate spaces ' ', column + spaces)
  | c :: cs =>
    if c = ' ' then plainFrom folds indent (spaces + 1) column cs
    else
      let breaks := spaces = 1 && width < column && folds
      let front := if breaks then newLine indent else List.replicate spaces ' '
      let column := if breaks then indent else column + spaces
      let (rest, column) := plainFrom folds indent 0 (column + 1) cs
      (front ++ c :: rest, column)

/-- A plain scalar. -/
def plainPiece (folds : Bool) (indent : Nat) (cs : List Char) : Piece := fun p =>
  let front := if p.spaced then [] else [' ']
  let (text, column) := plainFrom folds indent 0 (p.column + front.length) cs
  (front ++ text, { column, spaced := false, fresh := false })

/-- The breaks inside single quotes: one more for a line feed, since a single one would be read as
    a space. The text goes on at the indentation. -/
def breaksPiece (indent : Nat) (breaks : List Char) : List Char :=
  (if breaks.head? = some '\n' then ['\n'] else []) ++ breaks ++ List.replicate indent ' '

/-- The characters between single quotes, behind a gap of spaces or of breaks, newest first. `inner`
    says whether a word stands in front of the gap. -/
def singleFrom (folds : Bool) (indent : Nat) (inner : Bool) (gap : List Char) (column : Nat) :
    List Char → List Char × Nat
  | [] =>
    if gap.any Style.isAnyBreak then (breaksPiece indent gap.reverse, indent)
    else (gap, column + gap.length)
  | c :: cs =>
    let atBreak := gap.any Style.isAnyBreak
    if (c = ' ' && !atBreak) || (Style.isAnyBreak c && (gap.isEmpty || atBreak)) then
      singleFrom folds indent inner (c :: gap) column cs
    else
      let fold := gap.length = 1 && width < column && folds && inner && !atBreak
      let front :=
        if atBreak then breaksPiece indent gap.reverse
        else if fold then newLine indent
        else gap
      let column :=
        if atBreak || fold then indent else column + gap.length
      if c = ' ' || Style.isAnyBreak c then
        let (rest, column) := singleFrom folds indent true [c] column cs
        (front ++ rest, column)
      else
        let own := if c = '\'' then ['\'', '\''] else [c]
        let (rest, column) := singleFrom folds indent true [] (column + own.length) cs
        (front ++ own ++ rest, column)

/-- A scalar between single quotes. -/
def singlePiece (folds : Bool) (indent : Nat) (cs : List Char) : Piece :=
  (Piece.word ['\'']).andThen <| Piece.andThen
    (fun p =>
      let (text, column) := singleFrom folds indent false [] p.column cs
      (text, { p with column }))
    (Piece.indicator ['\''] false false false)

/-! ## 3. Double quotes -/

/-- Does a code point stand between double quotes as it is? -/
def standsInDouble (p : CodePoint) : Bool :=
  match p with
  | .surrogate _ => false
  | .char c =>
    let n := c.toNat
    !("\"\\\x85\u2028\u2029\uFEFF".toList.contains c) &&
      ((0x20 ≤ n && n ≤ 0x7E) || (0xA0 ≤ n && n ≤ 0xD7FF) || (0xE000 ≤ n && n ≤ 0xFFFD))

/-- The letter of the escape for a code point, if it has one. -/
def escapeLetter? (p : CodePoint) : Option Char :=
  match p.toNat with
  | 0x00 => some '0'
  | 0x07 => some 'a'
  | 0x08 => some 'b'
  | 0x09 => some 't'
  | 0x0A => some 'n'
  | 0x0B => some 'v'
  | 0x0C => some 'f'
  | 0x0D => some 'r'
  | 0x1B => some 'e'
  | 0x22 => some '"'
  | 0x5C => some '\\'
  | 0x85 => some 'N'
  | 0xA0 => some '_'
  | 0x2028 => some 'L'
  | 0x2029 => some 'P'
  | _ => none

/-- The escape for a code point. -/
def escape (p : CodePoint) : List Char :=
  match escapeLetter? p with
  | some l => ['\\', l]
  | none =>
    let n := p.toNat
    if n < 0x100 then '\\' :: 'x' :: hexDigits upperDigit n 2
    else if n < 0x10000 then '\\' :: 'u' :: hexDigits upperDigit n 4
    else '\\' :: 'U' :: hexDigits upperDigit n 8

/-- A folded line between double quotes: a backslash, the break, and another backslash if the next
    character is a space, which would not be read at the start of a line. -/
def foldDouble (indent : Nat) (spaceNext : Bool) : List Char :=
  '\\' :: newLine indent ++ (if spaceNext then ['\\'] else [])

/-- The code points between double quotes. Lines are folded in front of a space and at escapes, but
    neither in front of the second code point nor of the last. `first` says whether this is the
    first one, `atEscape` whether nothing stands since the start, an escape or a fold. -/
def doubleFrom (folds : Bool) (indent : Nat) (first atEscape : Bool) (column : Nat) :
    Text → List Char × Nat
  | [] => ([], column)
  | p :: ps =>
    if standsInDouble p then
      let space := p.is ' '
      let fold := !first && !ps.isEmpty && (space || atEscape) && width < column && folds
      let front := if fold then foldDouble indent space else []
      let column := if fold then indent + (if space then 1 else 0) else column
      let (rest, column) := doubleFrom folds indent false false (column + 1) ps
      (front ++ p.char?.toList ++ rest, column)
    else
      let own := escape p
      let column := column + own.length
      let space := (ps.head?.map fun q => q.is ' ').getD false
      let fold := !first && !ps.isEmpty && width + 1 < column && folds
      let behind := if fold then foldDouble indent space else []
      let column := if fold then indent + (if space then 1 else 0) else column
      let (rest, column) := doubleFrom folds indent false true column ps
      (own ++ behind ++ rest, column)

/-- A scalar between double quotes. -/
def doublePiece (folds : Bool) (indent : Nat) (t : Text) : Piece :=
  (Piece.word ['"']).andThen <| Piece.andThen
    (fun p =>
      let (text, column) := doubleFrom folds indent true true p.column t
      (text, { p with column }))
    (Piece.indicator ['"'] false false false)

end Conform.Markup
