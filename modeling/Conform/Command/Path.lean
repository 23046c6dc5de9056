/-!
# Paths

A path is a list of parts, perhaps behind slashes. Empty parts and parts that are a single point
say nothing and are dropped; two points stay, for they may lead through a link. A path without
parts is shown as a single point.
-/

namespace Conform.Command

/-- A path: the number of slashes in front, and its parts. -/
structure Path where
  slashes : Nat := 0
  parts : List (List Char)
  deriving DecidableEq, Repr, Inhabited

namespace Path

/-- The pieces between slashes. -/
def pieces : List Char → List (List Char)
  | [] => [[]]
  | c :: cs =>
    if c = '/' then [] :: pieces cs
    else
      match pieces cs with
      | [] => [[c]]
      | p :: ps => (c :: p) :: ps

/-- Does a piece lead anywhere? -/
def leads (piece : List Char) : Bool :=
  piece ≠ [] && piece ≠ ['.']

/-- How many of some slashes in front count: exactly two are kept, more are one. -/
def leading (n : Nat) : Nat :=
  if n ≤ 2 then n else 1

/-- The path that a text names. -/
def ofChars (cs : List Char) : Path :=
  ⟨leading (cs.takeWhile (· = '/')).length, (pieces cs).filter leads⟩

/-- A path as text. -/
def shown (p : Path) : List Char :=
  match List.replicate p.slashes '/' ++ List.intercalate ['/'] p.parts with
  | [] => ['.']
  | cs => cs

end Path

end Conform.Command
