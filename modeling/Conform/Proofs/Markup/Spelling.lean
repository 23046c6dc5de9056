import Conform.Markup.Node
import Conform.Markup.Scalar.Meaning
import Conform.Proofs.Record

/-!
# Nodes that spell a record

The nodes of a document are numbered in the order in which they start, so the parts of a node come
behind it. A node spells a record if it holds what the record does, part by part (`Spells`); that
depends only on the nodes from it on (`Spells.mono`).
-/

namespace Conform.Markup

/-! ## 1. Spelling -/

/-- A scalar node that denotes an atom. -/
def Node.Holds (n : Node) (a : Atom) : Prop :=
  ∃ t, n = ⟨tagOfAtom a, .scalar t⟩ ∧
    ∀ origin, Scalar.valueOf? origin (tagOfAtom a) t = some (.ok a)

mutual

/-- A node spells a record. -/
def Spells (nodes : Array Node) (id : NodeId) : Record → Prop
  | .atom a => ∃ n, nodes[id]? = some n ∧ n.Holds a
  | .list items =>
    ∃ ids, nodes[id]? = some ⟨.seq, .sequence ids⟩ ∧ SpellsAll nodes id ids items
  | .map entries =>
    ∃ pairs, nodes[id]? = some ⟨.map, .mapping pairs⟩ ∧ SpellsPairs nodes id pairs entries

/-- Nodes behind another one spell records. -/
def SpellsAll (nodes : Array Node) (front : NodeId) : List NodeId → List Record → Prop
  | [], [] => True
  | id :: ids, r :: rs => front < id ∧ Spells nodes id r ∧ SpellsAll nodes front ids rs
  | _, _ => False

/-- Pairs of nodes behind another one spell pairs. -/
def SpellsPairs (nodes : Array Node) (front : NodeId) :
    List (NodeId × NodeId) → List (Atom × Record) → Prop
  | [], [] => True
  | (i, j) :: pairs, (k, r) :: es =>
    (front < i ∧ ∃ n, nodes[i]? = some n ∧ n.Holds k) ∧ (front < j ∧ Spells nodes j r) ∧
      SpellsPairs nodes front pairs es
  | _, _ => False

end

/-! ## 2. Nodes that are left alone -/

/-- Some nodes are the same from a number on. -/
def SameFrom (front : NodeId) (nodes nodes' : Array Node) : Prop :=
  ∀ (id : NodeId) (n : Node), front ≤ id → nodes[id]? = some n → nodes'[id]? = some n

mutual

/-- What a node spells depends on no node in front of it. -/
theorem Spells.mono {front : NodeId} {nodes nodes' : Array Node} (h : SameFrom front nodes nodes') :
    ∀ {r : Record} {id : NodeId}, front ≤ id → Spells nodes id r → Spells nodes' id r
  | .atom _, id => fun hid ⟨n, hn, hholds⟩ => ⟨n, h id n hid hn, hholds⟩
  | .list _, id => fun hid ⟨ids, hn, hall⟩ =>
      ⟨ids, h id _ hid hn, SpellsAll.mono h hid hall⟩
  | .map _, id => fun hid ⟨pairs, hn, hall⟩ =>
      ⟨pairs, h id _ hid hn, SpellsPairs.mono h hid hall⟩

theorem SpellsAll.mono {front : NodeId} {nodes nodes' : Array Node}
    (h : SameFrom front nodes nodes') : ∀ {rs : List Record} {first : NodeId} {ids : List NodeId},
    front ≤ first → SpellsAll nodes first ids rs → SpellsAll nodes' first ids rs
  | [], _, [] => fun _ _ => trivial
  | [], _, _ :: _ => fun _ h => h.elim
  | _ :: _, _, [] => fun _ h => h.elim
  | _ :: _, _, _ :: _ => fun hfirst ⟨hid, hr, hrs⟩ =>
      ⟨hid, Spells.mono h (Nat.le_trans hfirst (Nat.le_of_lt hid)) hr, SpellsAll.mono h hfirst hrs⟩

theorem SpellsPairs.mono {front : NodeId} {nodes nodes' : Array Node}
    (h : SameFrom front nodes nodes') : ∀ {es : List (Atom × Record)} {first : NodeId}
    {pairs : List (NodeId × NodeId)}, front ≤ first → SpellsPairs nodes first pairs es →
    SpellsPairs nodes' first pairs es
  | [], _, [] => fun _ _ => trivial
  | [], _, _ :: _ => fun _ h => h.elim
  | _ :: _, _, [] => fun _ h => h.elim
  | (_, _) :: _, _, (i, _) :: _ => fun hfirst ⟨⟨hi, n, hn, hholds⟩, ⟨hj, hr⟩, hes⟩ =>
      ⟨⟨hi, n, h i n (Nat.le_trans hfirst (Nat.le_of_lt hi)) hn, hholds⟩,
        ⟨hj, Spells.mono h (Nat.le_trans hfirst (Nat.le_of_lt hj)) hr⟩,
        SpellsPairs.mono h hfirst hes⟩

end

end Conform.Markup
