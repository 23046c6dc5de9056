import Conform.Markup.Token

/-!
# Layout: indentation and implicit keys

What the places of tokens mean. Block collections are opened by indenting and closed by going back,
so the layout keeps the columns of the open ones. A key in front of a colon is not marked as such:
every token that could turn out to be one is a candidate until the colon comes, the line ends, or
1024 characters have passed; then the tokens that make it a key go in front of it.
-/

namespace Conform.Markup

/-! ## 1. The state -/

/-- A token that could turn out to be a key. -/
structure Candidate where
  /-- How many tokens stand in front of it. -/
  position : Nat
  /-- It can be nothing else, because it stands where a block mapping goes on. -/
  required : Bool
  place : Place
  deriving Repr, Inhabited

/-- The tokens read so far and what the layout says about the next one. -/
structure Layout where
  cursor : Cursor
  /-- The tokens so far, newest first. -/
  reversed : List Token := []
  /-- How many tokens there are so far. -/
  count : Nat := 0
  /-- The columns of the open block collections, the innermost first. -/
  columns : List Nat := []
  /-- The candidate of every open flow collection, the innermost first, and at the end the one of
      block context. -/
  candidates : List (Option Candidate) := [none]
  /-- May a key start here? -/
  keyAllowed : Bool := true
  deriving Repr, Inhabited

namespace Layout

/-- The layout at the start of a source. A byte-order mark in front is skipped. -/
def start (source : List Char) : Layout :=
  let c : Cursor := ⟨source, {}⟩
  { cursor := if source.head? = some '\uFEFF' then c.drop 1 else c }

/-- Is a flow collection open? -/
def inFlow (s : Layout) : Bool :=
  1 < s.candidates.length

/-- The column of the innermost block collection; the document stands at `-1`. -/
def indent (s : Layout) : Int :=
  match s.columns with
  | [] => -1
  | c :: _ => c

/-- The layout with the cursor somewhere else. -/
def moveTo (s : Layout) (c : Cursor) : Layout :=
  { s with cursor := c }

/-- The layout after one more token. -/
def push (s : Layout) (t : Token) : Layout :=
  { s with reversed := t :: s.reversed, count := s.count + 1 }

/-- The layout with a token in front of the one at a position. -/
def insertAt (s : Layout) (position : Nat) (t : Token) : Layout :=
  let behind := s.count - position
  { s with
    reversed := s.reversed.take behind ++ t :: s.reversed.drop behind
    count := s.count + 1 }

/-! ## 2. Indentation -/

/-- Opens a block collection at a column, if that is further in than the innermost one. -/
def opens (s : Layout) (column : Nat) : Bool :=
  s.indent < column

/-- The layout with one more open block collection. -/
def indentTo (s : Layout) (column : Nat) : Layout :=
  { s with columns := column :: s.columns }

/-- The columns that stay open at a column, and how many do not. -/
def closeTo (column : Int) : List Nat → Nat × List Nat
  | [] => (0, [])
  | c :: cs =>
    if column < c then
      let (n, kept) := closeTo column cs
      (n + 1, kept)
    else (0, c :: cs)

/-- Closes the block collections that are further in than a column. Flow collections ignore
    indentation. -/
def unwind (s : Layout) (column : Int) : Layout :=
  if s.inFlow then s
  else
    let (n, kept) := closeTo column s.columns
    { s with
      reversed := List.replicate n .blockEnd ++ s.reversed
      count := s.count + n
      columns := kept }

/-! ## 3. Candidates -/

/-- The candidate of the innermost collection. -/
def candidate? (s : Layout) : Option Candidate :=
  s.candidates.head?.join

/-- The layout with another candidate for the innermost collection. -/
def setCandidate (s : Layout) (k : Option Candidate) : Layout :=
  { s with candidates := k :: s.candidates.drop 1 }

/-- Gives up the candidate of the innermost collection. A required one cannot be given up. -/
def dropCandidate (s : Layout) : Except Fault Layout :=
  match s.candidate? with
  | some k => if k.required then .error .malformed else .ok (s.setCandidate none)
  | none => .ok s

/-- Notes the token that comes next as a candidate, if a key may start here. -/
def noteCandidate (s : Layout) : Except Fault Layout :=
  if s.keyAllowed then do
    let s ← s.dropCandidate
    let p := s.cursor.place
    pure (s.setCandidate (some ⟨s.count, !s.inFlow && s.indent = p.column, p⟩))
  else pure s

/-- Is a candidate too far back to be a key: on another line, or too many characters ago? -/
def isStale (p : Place) (k : Candidate) : Bool :=
  k.place.line != p.line || 1024 < p.index - k.place.index

/-- Gives up all candidates that are too far back. -/
def dropStale (s : Layout) : Except Fault Layout :=
  let p := s.cursor.place
  if s.candidates.any fun k => k.any fun k => k.required && isStale p k then .error .malformed
  else
    .ok { s with candidates := s.candidates.map fun k => k.filter fun k => !isStale p k }

/-- The tokens that are settled: those in front of all candidates, oldest first. -/
def settled (s : Layout) : List Token :=
  let positions := s.candidates.filterMap fun k => k.map (·.position)
  let n := positions.foldl min s.count
  (s.reversed.drop (s.count - n)).reverse

end Layout

end Conform.Markup
