import Conform.Atom

/-!
# Values

A record as a tree. One shape serves every view of a record: its labels and its references back
are parameters. A plain value has neither; the outline of a record that contains itself refers back
to the containers around it; a record about to be written has an anchor at some places and refers
back to anchors.

Mappings keep the order of their pairs. A key that is the same as an earlier one adds no pair: the
earlier key stays where it is and gets the new value.
-/

namespace Conform

/-! ## 1. Trees -/

/-- A value as a tree, with a label at every place and references back to places above. -/
inductive Tree (ι β : Type) where
  | atom (label : ι) (a : Atom)
  | list (label : ι) (items : List (Tree ι β))
  | tuple (label : ι) (items : List (Tree ι β))
  | set (label : ι) (items : List (Tree ι β))
  | map (label : ι) (entries : List (Tree ι β × Tree ι β))
  | back (ref : β)
  deriving Inhabited

/-- A value that shares nothing and contains itself nowhere. -/
abbrev Value := Tree Unit Empty

/-- A value in which a reference back `n` stands for the `n`-th container around it, counted from
    one at the innermost. -/
abbrev Outline := Tree Unit Nat

namespace Tree

variable {ι β κ γ : Type}

mutual

/-- The same tree under other labels and references. -/
def relabel (f : ι → κ) (g : β → γ) : Tree ι β → Tree κ γ
  | .atom l a => .atom (f l) a
  | .list l ts => .list (f l) (relabelAll f g ts)
  | .tuple l ts => .tuple (f l) (relabelAll f g ts)
  | .set l ts => .set (f l) (relabelAll f g ts)
  | .map l es => .map (f l) (relabelEntries f g es)
  | .back r => .back (g r)

/-- The same trees under other labels and references. -/
def relabelAll (f : ι → κ) (g : β → γ) : List (Tree ι β) → List (Tree κ γ)
  | [] => []
  | t :: ts => relabel f g t :: relabelAll f g ts

/-- The same pairs under other labels and references. -/
def relabelEntries (f : ι → κ) (g : β → γ) :
    List (Tree ι β × Tree ι β) → List (Tree κ γ × Tree κ γ)
  | [] => []
  | (k, v) :: es => (relabel f g k, relabel f g v) :: relabelEntries f g es

end

end Tree

/-! ## 2. Plain values -/

namespace Value

/-- The kind of a value. -/
def kind : Value → Kind
  | .atom _ a => a.kind
  | .list _ _ => .array
  | .tuple _ _ => .tuple
  | .set _ _ => .set
  | .map _ _ => .hash
  | .back r => nomatch r

/-- A value as the outline of itself. -/
def outline (v : Value) : Outline :=
  v.relabel id (fun r => nomatch r)

mutual

/-- Are two values the same key? Tuples are if their parts are, pair by pair. -/
def sameKey : Value → Value → Bool
  | .atom _ a, .atom _ b => a.sameKey b
  | .tuple _ xs, .tuple _ ys => sameKeys xs ys
  | _, _ => false

/-- Are two lists of values the same keys, pair by pair? -/
def sameKeys : List Value → List Value → Bool
  | [], [] => true
  | x :: xs, y :: ys => sameKey x y && sameKeys xs ys
  | _, _ => false

/-- Can a value be a key? Scalars can, and tuples of what can. -/
def isKey : Value → Bool
  | .atom _ _ => true
  | .tuple _ xs => areKeys xs
  | _ => false

/-- Can all of some values be keys? -/
def areKeys : List Value → Bool
  | [] => true
  | x :: xs => isKey x && areKeys xs

end

end Value

/-! ## 3. Ordered pairs -/

/-- The pairs of a mapping after one more pair: a new key goes to the end, a key that is there
    already keeps its form and place and gets the new value. -/
def insertPair {α β : Type} (same : α → α → Bool) (k : α) (v : β) :
    List (α × β) → List (α × β)
  | [] => [(k, v)]
  | (k', v') :: rest =>
    if same k' k then (k', v) :: rest else (k', v') :: insertPair same k v rest

/-- The mapping that a sequence of pairs makes. -/
def gatherPairs {α β : Type} (same : α → α → Bool) (pairs : List (α × β)) : List (α × β) :=
  pairs.foldl (fun m p => insertPair same p.1 p.2 m) []

/-- The value of a key in a mapping. -/
def lookupPair {α β : Type} (same : α → Bool) (pairs : List (α × β)) : Option β :=
  (pairs.find? fun p => same p.1).map (·.2)

/-- A mapping of plain values, from pairs in which keys may repeat. -/
def Value.ofPairs (pairs : List (Value × Value)) : Value :=
  .map () (gatherPairs Value.sameKey pairs)

/-- A set of plain values, from elements that may repeat. -/
def Value.ofElements (items : List Value) : Value :=
  .set () ((gatherPairs Value.sameKey (items.map fun v => (v, ()))).map (·.1))

end Conform
