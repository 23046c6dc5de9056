import Conform.Markup.Token

/-!
# Block scalars

Scalars that are lines of text under a header. The header says whether the lines are kept or folded,
what happens to the breaks at the end, and perhaps how far the lines are indented; without that the
first line that is not empty decides.
-/

namespace Conform.Markup

/-! ## 1. The header -/

/-- What happens to the breaks at the end of a block scalar. -/
inductive Chomping where
  /-- All are dropped. -/
  | strip
  /-- The first one stays. -/
  | clip
  /-- All stay. -/
  | keep
  deriving DecidableEq, Repr, Inhabited

/-- The header of a block scalar behind its mark. -/
structure BlockHeader where
  chomping : Chomping := .clip
  increment : Option Nat := none
  deriving Repr, Inhabited

/-- The chomping that a character asks for. -/
def chompingOf? : Char → Option Chomping
  | '+' => some .keep
  | '-' => some .strip
  | _ => none

/-- The header at the start of some characters, and how many of them it takes: a chomping mark and a
    digit from one to nine, in either order, each optional. -/
def headerOf : List Char → Except Fault (BlockHeader × Nat)
  | [] => .ok ({}, 0)
  | a :: rest =>
    match chompingOf? a with
    | some ch =>
      match rest.head?.bind plainDigit? with
      | some 0 => .error .malformed
      | some d => .ok (⟨ch, some d⟩, 2)
      | none => .ok (⟨ch, none⟩, 1)
    | none =>
      match plainDigit? a with
      | some 0 => .error .malformed
      | some d =>
        match rest.head?.bind chompingOf? with
        | some ch => .ok (⟨ch, some d⟩, 2)
        | none => .ok (⟨.clip, some d⟩, 1)
      | none => .ok ({}, 0)

/-- Reads the header. The rest of the line holds at most a comment. -/
def readBlockHeader (c : Cursor) : Except Fault (BlockHeader × Cursor) := do
  let (header, n) ← headerOf c.rest
  let after := c.drop n
  if endsField after.rest then pure (header, ← skipRestOfLine after) else throw .malformed

/-! ## 2. Empty lines -/

/-- Reads the empty lines in front of a block scalar, however far they are indented. The result is
    their breaks, newest first, the most columns any of them has, and the cursor behind them. -/
def readLeadingLines (breaks : List Char) (widest : Nat) :
    List Char → Place → List Char × Nat × Cursor
  | [], p => (breaks, widest, ⟨[], p⟩)
  | c :: cs, p =>
    if c = ' ' then readLeadingLines breaks (max widest (p.next c).column) cs (p.next c)
    else if isBreak c then
      if isHalfBreak c cs then readLeadingLines breaks widest cs p
      else readLeadingLines (readBreak c :: breaks) widest cs (p.next c)
    else (breaks, widest, ⟨c :: cs, p⟩)

/-- Reads empty lines up to a known indentation. -/
def readEmptyLines (indent : Nat) (breaks : List Char) :
    List Char → Place → List Char × Cursor
  | [], p => (breaks, ⟨[], p⟩)
  | c :: cs, p =>
    if c = ' ' && p.column < indent then readEmptyLines indent breaks cs (p.next c)
    else if isBreak c then
      if isHalfBreak c cs then readEmptyLines indent breaks cs p
      else readEmptyLines indent (readBreak c :: breaks) cs (p.next c)
    else (breaks, ⟨c :: cs, p⟩)

/-! ## 3. Lines -/

/-- Where reading stands inside a block scalar. -/
inductive BlockState where
  /-- On a line, which started with spacing or not. -/
  | line (indented : Bool)
  /-- Behind a line that ended with a break, with the breaks of empty lines since, newest first. -/
  | between (indented : Bool) (ended : Char) (breaks : List Char)
  deriving Repr

/-- What stands between two lines of a block scalar. Folding turns a single line feed between two
    lines without extra indentation into a space, and drops it in front of empty lines. -/
def joinLines (folded indented : Bool) (ended : Char) (next : Char) (breaks : List Char) :
    List Char :=
  if folded && ended = '\n' && !indented && !isSpacing next then
    (if breaks.isEmpty then [' '] else breaks.reverse)
  else ended :: breaks.reverse

/-- The breaks at the end of a block scalar that stay. -/
def chompedEnd (chomping : Chomping) (ended : List Char) (breaks : List Char) : List Char :=
  match chomping with
  | .strip => []
  | .clip => ended
  | .keep => ended ++ breaks.reverse

/-- Reads on in a block scalar. `reversed` is its text so far, newest first. -/
def readLinesFrom (folded : Bool) (chomping : Chomping) (indent : Nat) (state : BlockState)
    (reversed : List Char) : List Char → Place → List Char × Cursor
  | [], p =>
    let tail :=
      match state with
      | .line _ => []
      | .between _ ended breaks => chompedEnd chomping [ended] breaks
    (reversed.reverse ++ tail, ⟨[], p⟩)
  | c :: cs, p =>
    match state with
    | .line indented =>
      if isBreak c then
        if isHalfBreak c cs then readLinesFrom folded chomping indent state reversed cs p
        else
          readLinesFrom folded chomping indent (.between indented (readBreak c) []) reversed cs
            (p.next c)
      else readLinesFrom folded chomping indent state (c :: reversed) cs (p.next c)
    | .between indented ended breaks =>
      if c = ' ' && p.column < indent then
        readLinesFrom folded chomping indent state reversed cs (p.next c)
      else if isBreak c then
        if isHalfBreak c cs then readLinesFrom folded chomping indent state reversed cs p
        else
          readLinesFrom folded chomping indent (.between indented ended (readBreak c :: breaks))
            reversed cs (p.next c)
      else if p.column = indent then
        let joint := joinLines folded indented ended c breaks
        readLinesFrom folded chomping indent (.line (isSpacing c))
          (c :: (joint.reverse ++ reversed)) cs (p.next c)
      else (reversed.reverse ++ chompedEnd chomping [ended] breaks, ⟨c :: cs, p⟩)

/-- Reads the empty lines in front of a block scalar. The result is its indentation, which the first
    line decides unless the header does, the breaks of the empty lines, newest first, and the cursor
    behind them. -/
def readIndentation (least : Nat) (increment : Option Nat) (c : Cursor) :
    Nat × List Char × Cursor :=
  match increment with
  | none =>
    let (breaks, widest, c) := readLeadingLines [] 0 c.rest c.place
    (max least widest, breaks, c)
  | some n => (least + n - 1, readEmptyLines (least + n - 1) [] c.rest c.place)

/-- Reads the lines of a block scalar, behind the empty ones in front. -/
def readLines (folded : Bool) (chomping : Chomping) (indent : Nat) (breaks : List Char) (c : Cursor) :
    List Char × Cursor :=
  match c.rest with
  | [] => (chompedEnd chomping [] breaks, c)
  | first :: rest =>
    if c.place.column = indent then
      readLinesFrom folded chomping indent (.line (isSpacing first)) (first :: breaks) rest
        (c.place.next first)
    else (chompedEnd chomping [] breaks, c)

/-- Reads a block scalar from its mark on, within a block indented by `parent` columns. -/
def readBlock (folded : Bool) (parent : Int) (c : Cursor) :
    Except Fault (List Char × Cursor) := do
  let (header, c) ← readBlockHeader (c.drop 1)
  let (indent, breaks, c) := readIndentation (max (parent + 1) 1).toNat header.increment c
  pure (readLines folded header.chomping indent breaks c)

end Conform.Markup
