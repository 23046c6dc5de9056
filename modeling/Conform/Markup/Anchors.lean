import Conform.Graph
import Conform.Fault

/-!
# Anchors

A record that is written may hold an object in several places. The first place has an anchor and the
whole content, every other one is an alias. Anchors are numbered from one, in the order in which
objects are met for the second time.
-/

namespace Conform.Markup

/-! ## 1. Annotated trees -/

/-- A record about to be written: the number of the anchor at a place, and aliases. -/
abbrev Written := Tree (Option Nat) Nat

variable {ι β : Type}

mutual

/-- The references back in a tree, in the order of its places. -/
def backRefs : Tree ι β → List β
  | .atom _ _ => []
  | .list _ ts => backRefsAll ts
  | .tuple _ ts => backRefsAll ts
  | .set _ ts => backRefsAll ts
  | .map _ es => backRefsEntries es
  | .back r => [r]

/-- The references back in some trees. -/
def backRefsAll : List (Tree ι β) → List β
  | [] => []
  | t :: ts => backRefs t ++ backRefsAll ts

/-- The references back in some pairs, each key before its value. -/
def backRefsEntries : List (Tree ι β × Tree ι β) → List β
  | [] => []
  | (k, v) :: es => backRefs k ++ backRefs v ++ backRefsEntries es

end

/-- The objects with an anchor, in the order of the anchors. -/
def anchored (t : Graph.Spanning) : List Ref :=
  (backRefs t).eraseDups

/-- The number of the anchor of an object, if it has one. -/
def anchorOf? (refs : List Ref) (r : Ref) : Option Nat :=
  (refs.idxOf? r).map (· + 1)

/-- A spanning tree with its anchors. -/
def annotate (t : Graph.Spanning) : Written :=
  let refs := anchored t
  t.relabel (anchorOf? refs) fun r => (anchorOf? refs r).getD 0

/-- A plain value needs no anchors. -/
def Written.ofValue (v : Value) : Written :=
  v.relabel (fun _ => none) fun r => nomatch r

/-! ## 2. What can be written -/

mutual

/-- Can every number in a tree be written? -/
def isWritable : Tree ι β → Bool
  | .atom _ (.int i) => Numeral.isWritable i
  | .atom _ _ => true
  | .list _ ts => isWritableAll ts
  | .tuple _ ts => isWritableAll ts
  | .set _ ts => isWritableAll ts
  | .map _ es => isWritableEntries es
  | .back _ => true

/-- Can every number in some trees be written? -/
def isWritableAll : List (Tree ι β) → Bool
  | [] => true
  | t :: ts => isWritable t && isWritableAll ts

/-- Can every number in some pairs be written? -/
def isWritableEntries : List (Tree ι β × Tree ι β) → Bool
  | [] => true
  | (k, v) :: es => isWritable k && isWritable v && isWritableEntries es

end

end Conform.Markup
