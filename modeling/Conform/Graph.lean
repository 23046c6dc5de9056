import Conform.Value

/-!
# Graphs: records whose parts may be shared

A loaded document is a graph of objects. An object may be met in several places, because an alias
stands for what its anchor names, and a container may even contain itself. This file fixes the
graph and its two views: the outline, in which sharing is repeated and only self-containment
refers back, and the spanning tree, in which every object that has an identity stands once, at its
first place in depth-first order, and every later place refers to it.
-/

namespace Conform

/-! ## 1. Objects -/

/-- The number of an object in its graph. -/
abbrev Ref := Nat

/-- A value whose parts are other objects. -/
inductive Object where
  | atom (a : Atom)
  | list (items : List Ref)
  | tuple (items : List Ref)
  | set (items : List Ref)
  | map (entries : List (Ref × Ref))
  deriving DecidableEq, Repr, Inhabited

namespace Object

/-- The kind of an object. -/
def kind : Object → Kind
  | .atom a => a.kind
  | .list _ => .array
  | .tuple _ => .tuple
  | .set _ => .set
  | .map _ => .hash

/-- Does it matter where an object is met again? It does for containers other than the empty
    tuple, and for dates and times; every other scalar is written out wherever it stands. -/
def hasIdentity : Object → Bool
  | .atom (.day _) => true
  | .atom (.moment _) => true
  | .atom _ => false
  | .tuple items => !items.isEmpty
  | _ => true

end Object

/-- A graph of objects. The objects that are never asked for are null. -/
structure Graph where
  objects : Array Object
  deriving Repr, Inhabited

namespace Graph

/-- The object with a number. -/
def object (g : Graph) (r : Ref) : Object :=
  (g.objects[r]?).getD (.atom .null)

/-- The kind of an object. -/
def kind (g : Graph) (r : Ref) : Kind :=
  (g.object r).kind

/-- The scalar an object is. -/
def atom? (g : Graph) (r : Ref) : Option Atom :=
  match g.object r with
  | .atom a => some a
  | _ => none

/-! ## 2. The outline -/

/-- The outline of an object within the containers around it, the innermost first. They are
    pairwise different objects of the graph, so there are never more of them than objects. -/
def outlineWithin (g : Graph) (around : List Ref) (r : Ref) : Outline :=
  match around.idxOf? r with
  | some n => .back (n + 1)
  | none =>
    if g.objects.size < around.length then .atom () .null
    else
      match g.object r with
      | .atom a => .atom () a
      | .list items => .list () (items.map fun i => outlineWithin g (r :: around) i)
      | .tuple items => .tuple () (items.map fun i => outlineWithin g (r :: around) i)
      | .set items => .set () (items.map fun i => outlineWithin g (r :: around) i)
      | .map entries =>
        .map () (entries.map fun e =>
          (outlineWithin g (r :: around) e.1, outlineWithin g (r :: around) e.2))
termination_by g.objects.size + 1 - around.length
decreasing_by all_goals (simp only [List.length_cons]; omega)

/-- The outline of an object. -/
def outline (g : Graph) (r : Ref) : Outline :=
  g.outlineWithin [] r

/-! ## 3. The spanning tree -/

/-- A graph as a tree: the label of a place is its object, a reference back is an object that has
    a place before. -/
abbrev Spanning := Tree Ref Ref

/-- Walks a list of objects from left to right, with what has been met before. -/
def spanEach (walk : Ref → List Ref → Spanning × List Ref) :
    List Ref → List Ref → List Spanning × List Ref
  | [], met => ([], met)
  | r :: rs, met =>
    let (t, met) := walk r met
    let (ts, met) := spanEach walk rs met
    (t :: ts, met)

/-- Walks a list of pairs, each key before its value. -/
def spanPairs (walk : Ref → List Ref → Spanning × List Ref) :
    List (Ref × Ref) → List Ref → List (Spanning × Spanning) × List Ref
  | [], met => ([], met)
  | (k, v) :: rest, met =>
    let (kt, met) := walk k met
    let (vt, met) := walk v met
    let (ts, met) := spanPairs walk rest met
    ((kt, vt) :: ts, met)

/-- Walks an object depth first. Objects with an identity are noted when they are met, before
    their parts are walked, so none is entered twice. The number bounds the nesting: the containers
    entered on the way to a place are different objects. -/
def spanFrom (g : Graph) : Nat → Ref → List Ref → Spanning × List Ref
  | 0, r, met => (.back r, met)
  | n + 1, r, met =>
    let o := g.object r
    if o.hasIdentity && met.contains r then (.back r, met)
    else
      let met := if o.hasIdentity then r :: met else met
      match o with
      | .atom a => (.atom r a, met)
      | .list items =>
        let (ts, met) := spanEach (spanFrom g n) items met
        (.list r ts, met)
      | .tuple items =>
        let (ts, met) := spanEach (spanFrom g n) items met
        (.tuple r ts, met)
      | .set items =>
        let (ts, met) := spanEach (spanFrom g n) items met
        (.set r ts, met)
      | .map entries =>
        let (ts, met) := spanPairs (spanFrom g n) entries met
        (.map r ts, met)

/-- The spanning tree of an object. -/
def spanning (g : Graph) (r : Ref) : Spanning :=
  (g.spanFrom (g.objects.size + 1) r []).1

end Graph

end Conform
