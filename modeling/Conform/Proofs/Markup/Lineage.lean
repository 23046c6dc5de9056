import Mathlib.Data.Fintype.Card
import Mathlib.Data.Fintype.EquivFin
import Mathlib.Logic.Relation
import Conform.Markup.Objects
import Conform.Proofs.Keys

/-!
# Where the keys of a mapping come from

A mapping takes keys from its own pairs and from the mappings that it merges, which may merge others
in turn. Unfolding all of that gives its lineage, a tree (`Lineage`), over which the precedence of
values is a recursion: an own pair goes before everything merged, the last one before the ones in front
of it; of the merging pairs the last goes first, and of the mappings that one merging pair lists the
first (`Lineage.value?`). The order of the keys runs the other way (`Lineage.pairs`); the two meet in
`Lineage.value?_eq`: the value of a key is that of its last pair in that order.

A mapping has a lineage, and only one, exactly if everything that it merges can be merged and nothing
is merged into itself (`mergeable_iff`).
-/

namespace Conform.Markup

/-! ## 1. What a mapping node merges -/

/-- The pairs of a mapping. -/
def Node.pairs (n : Node) : List (NodeId × NodeId) :=
  match n.content with
  | .mapping ps => ps
  | _ => []

section Nodes

variable (nodes : Array Node)

/-- The node with a number. -/
def nodeAt (id : NodeId) : Node :=
  (nodes[id]?).getD default

/-- Is the node a mapping? -/
def isMappingAt (id : NodeId) : Bool :=
  match (nodeAt nodes id).content with
  | .mapping _ => true
  | _ => false

/-- The pairs of a mapping node. -/
def pairsAt (id : NodeId) : List (NodeId × NodeId) :=
  (nodeAt nodes id).pairs

/-- Does the key of a pair merge what its value names? -/
def isMerge (p : NodeId × NodeId) : Bool :=
  (nodeAt nodes p.1).tag = .merge

/-- The pairs that merge nothing. -/
def ownPairs (ps : List (NodeId × NodeId)) : List (NodeId × NodeId) :=
  ps.filter fun p => !isMerge nodes p

/-- The values of the merging pairs, in their order. -/
def sources (ps : List (NodeId × NodeId)) : List NodeId :=
  (ps.filter (isMerge nodes)).map (·.2)

/-- The nodes that the value of a merging pair lists: a mapping lists itself. -/
def listed? (source : NodeId) : Option (List NodeId) :=
  match (nodeAt nodes source).content with
  | .mapping _ => some [source]
  | .sequence items => some items
  | .scalar _ => none

/-- The first node merges the second one: a merging pair of the first lists the second. -/
def Merges (a b : NodeId) : Prop :=
  ∃ s ∈ sources nodes (pairsAt nodes a), ∃ ids, listed? nodes s = some ids ∧ b ∈ ids

/-- What a mapping merges, at once or through others, are mappings again, every merging pair names a
    mapping or a list, and none of the mappings is merged into itself. -/
structure Mergeable (id : NodeId) : Prop where
  mapping : ∀ a, Relation.ReflTransGen (Merges nodes) id a → isMappingAt nodes a = true
  listed : ∀ a, Relation.ReflTransGen (Merges nodes) id a →
    ∀ s ∈ sources nodes (pairsAt nodes a), ∃ ids, listed? nodes s = some ids
  acyclic : ∀ a, Relation.ReflTransGen (Merges nodes) id a →
    ¬ Relation.TransGen (Merges nodes) a a

end Nodes

/-! ## 2. Lineages -/

/-- A mapping with all that it merges: for every merging pair the mappings that it lists, and the
    pairs that merge nothing. -/
inductive Lineage where
  | mk (merged : List (List Lineage)) (own : List (NodeId × NodeId))

mutual

/-- The lineage is that of a mapping node. -/
def Unfolds (nodes : Array Node) (id : NodeId) : Lineage → Prop
  | .mk merged own =>
    isMappingAt nodes id = true ∧ ownPairs nodes (pairsAt nodes id) = own ∧
      UnfoldsSources nodes (sources nodes (pairsAt nodes id)) merged

/-- The lineages are those of the mappings that the values of merging pairs list. -/
def UnfoldsSources (nodes : Array Node) : List NodeId → List (List Lineage) → Prop
  | [], [] => True
  | s :: ss, ls :: merged =>
    (∃ ids, listed? nodes s = some ids ∧ UnfoldsListed nodes ids ls) ∧
      UnfoldsSources nodes ss merged
  | _, _ => False

/-- The lineages are those of some mapping nodes. -/
def UnfoldsListed (nodes : Array Node) : List NodeId → List Lineage → Prop
  | [], [] => True
  | id :: ids, l :: ls => Unfolds nodes id l ∧ UnfoldsListed nodes ids ls
  | _, _ => False

end

mutual

instance decUnfolds (nodes : Array Node) (id : NodeId) :
    (l : Lineage) → Decidable (Unfolds nodes id l)
  | .mk merged _ =>
    have := decUnfoldsSources nodes (sources nodes (pairsAt nodes id)) merged
    inferInstanceAs (Decidable (_ ∧ _ ∧ _))

instance decUnfoldsSources (nodes : Array Node) :
    (ss : List NodeId) → (merged : List (List Lineage)) → Decidable (UnfoldsSources nodes ss merged)
  | [], [] => .isTrue trivial
  | s :: ss, ls :: merged =>
    have := decUnfoldsSources nodes ss merged
    have : Decidable (∃ ids, listed? nodes s = some ids ∧ UnfoldsListed nodes ids ls) :=
      match listed? nodes s with
      | none => .isFalse fun ⟨_, hids, _⟩ => nomatch hids
      | some ids =>
        have := decUnfoldsListed nodes ids ls
        decidable_of_iff (UnfoldsListed nodes ids ls)
          ⟨fun hls => ⟨ids, rfl, hls⟩, fun ⟨_, hids, hls⟩ => Option.some.inj hids ▸ hls⟩
    inferInstanceAs (Decidable (_ ∧ _))
  | [], _ :: _ => .isFalse fun h => h
  | _ :: _, [] => .isFalse fun h => h

instance decUnfoldsListed (nodes : Array Node) :
    (ids : List NodeId) → (ls : List Lineage) → Decidable (UnfoldsListed nodes ids ls)
  | [], [] => .isTrue trivial
  | id :: ids, l :: ls =>
    have := decUnfolds nodes id l
    have := decUnfoldsListed nodes ids ls
    inferInstanceAs (Decidable (_ ∧ _))
  | [], _ :: _ => .isFalse fun h => h
  | _ :: _, [] => .isFalse fun h => h

end

namespace Lineage

mutual

/-- The value of a key: that of the last own pair that has it, and if none does, that of the last
    merging pair that provides it. -/
def value? (is : NodeId → Bool) : Lineage → Option NodeId
  | .mk merged own => (lookupPair is own.reverse).or (valueOfMerged? is merged)

/-- The value in the last of some merging pairs that provides the key. -/
def valueOfMerged? (is : NodeId → Bool) : List (List Lineage) → Option NodeId
  | [] => none
  | ls :: merged => (valueOfMerged? is merged).or (valueOfListed? is ls)

/-- The value in the first of some listed mappings that provides the key. -/
def valueOfListed? (is : NodeId → Bool) : List Lineage → Option NodeId
  | [] => none
  | l :: ls => (l.value? is).or (valueOfListed? is ls)

end

mutual

/-- All pairs in the order in which their keys count: the merging pairs in their order, then the own
    pairs. -/
def pairs : Lineage → List (NodeId × NodeId)
  | .mk merged own => pairsOfMerged merged ++ own

/-- The pairs of what some merging pairs list. -/
def pairsOfMerged : List (List Lineage) → List (NodeId × NodeId)
  | [] => []
  | ls :: merged => pairsOfListed ls ++ pairsOfMerged merged

/-- The pairs of some listed mappings, from the last mapping to the first. -/
def pairsOfListed : List Lineage → List (NodeId × NodeId)
  | [] => []
  | l :: ls => pairsOfListed ls ++ l.pairs

end

/-- The keys in the order in which they count. -/
def keys (l : Lineage) : List NodeId :=
  l.pairs.map (·.1)

/-! ## 3. Value and order -/

mutual

/-- **The value of a key is that of the last pair with this key**, in the order of the keys. -/
theorem value?_eq (is : NodeId → Bool) :
    ∀ l : Lineage, l.value? is = lookupPair is l.pairs.reverse
  | .mk merged own => by
      rw [value?, pairs, List.reverse_append, lookupPair_append, valueOfMerged?_eq is merged]

theorem valueOfMerged?_eq (is : NodeId → Bool) : ∀ merged : List (List Lineage),
    valueOfMerged? is merged = lookupPair is (pairsOfMerged merged).reverse
  | [] => rfl
  | ls :: merged => by
      rw [valueOfMerged?, pairsOfMerged, List.reverse_append, lookupPair_append,
        valueOfMerged?_eq is merged, valueOfListed?_eq is ls]

theorem valueOfListed?_eq (is : NodeId → Bool) : ∀ ls : List Lineage,
    valueOfListed? is ls = lookupPair is (pairsOfListed ls).reverse
  | [] => rfl
  | l :: ls => by
      rw [valueOfListed?, pairsOfListed, List.reverse_append, lookupPair_append, value?_eq is l,
        valueOfListed?_eq is ls]

end

end Lineage

/-! ## 4. One lineage at most -/

section Unfolding

variable {nodes : Array Node}

theorem Unfolds.isMappingAt {id : NodeId} : ∀ {l : Lineage}, Unfolds nodes id l →
    isMappingAt nodes id = true
  | .mk _ _ => fun ⟨hid, _, _⟩ => hid

mutual

/-- A node has one lineage at most. -/
theorem Unfolds.unique : ∀ {l l' : Lineage} {id : NodeId}, Unfolds nodes id l →
    Unfolds nodes id l' → l = l'
  | .mk _ _, .mk _ _, _ => fun ⟨_, hown, hmerged⟩ ⟨_, hown', hmerged'⟩ => by
      rw [← hown, ← hown', UnfoldsSources.unique hmerged hmerged']

theorem UnfoldsSources.unique : ∀ {merged merged' : List (List Lineage)} {ss : List NodeId},
    UnfoldsSources nodes ss merged → UnfoldsSources nodes ss merged' → merged = merged'
  | [], [], [] => fun _ _ => rfl
  | _ :: _, _ :: _, _ :: _ => fun ⟨⟨ids, hids, hls⟩, hrest⟩ ⟨⟨ids', hids', hls'⟩, hrest'⟩ => by
      obtain rfl : ids = ids' := Option.some.inj (hids.symm.trans hids')
      rw [UnfoldsListed.unique hls hls', UnfoldsSources.unique hrest hrest']
  | [], _ :: _, [] => fun _ h => h.elim
  | [], _, _ :: _ => fun h _ => h.elim
  | _ :: _, _, [] => fun h _ => h.elim
  | _ :: _, [], _ :: _ => fun _ h => h.elim

theorem UnfoldsListed.unique : ∀ {ls ls' : List Lineage} {ids : List NodeId},
    UnfoldsListed nodes ids ls → UnfoldsListed nodes ids ls' → ls = ls'
  | [], [], [] => fun _ _ => rfl
  | _ :: _, _ :: _, _ :: _ => fun ⟨hl, hls⟩ ⟨hl', hls'⟩ => by
      rw [Unfolds.unique hl hl', UnfoldsListed.unique hls hls']
  | [], _ :: _, [] => fun _ h => h.elim
  | [], _, _ :: _ => fun h _ => h.elim
  | _ :: _, _, [] => fun h _ => h.elim
  | _ :: _, [], _ :: _ => fun _ h => h.elim

end

mutual

/-- No pair of a lineage merges anything. -/
theorem Unfolds.isMerge_of_mem : ∀ {l : Lineage} {id : NodeId}, Unfolds nodes id l →
    ∀ p ∈ l.pairs, isMerge nodes p = false
  | .mk _ _, _ => fun ⟨_, hown, hmerged⟩ p hp => by
      rcases List.mem_append.mp hp with hp | hp
      · exact UnfoldsSources.isMerge_of_mem hmerged p hp
      · rw [← hown, ownPairs, List.mem_filter] at hp
        simpa using hp.2

theorem UnfoldsSources.isMerge_of_mem : ∀ {merged : List (List Lineage)} {ss : List NodeId},
    UnfoldsSources nodes ss merged → ∀ p ∈ Lineage.pairsOfMerged merged, isMerge nodes p = false
  | [], _ => fun _ _ hp => absurd hp List.not_mem_nil
  | _ :: _, [] => fun h => h.elim
  | _ :: _, _ :: _ => fun ⟨⟨_, _, hls⟩, hrest⟩ p hp => by
      rcases List.mem_append.mp hp with hp | hp
      · exact UnfoldsListed.isMerge_of_mem hls p hp
      · exact UnfoldsSources.isMerge_of_mem hrest p hp

theorem UnfoldsListed.isMerge_of_mem : ∀ {ls : List Lineage} {ids : List NodeId},
    UnfoldsListed nodes ids ls → ∀ p ∈ Lineage.pairsOfListed ls, isMerge nodes p = false
  | [], _ => fun _ _ hp => absurd hp List.not_mem_nil
  | _ :: _, [] => fun h => h.elim
  | _ :: _, _ :: _ => fun ⟨hl, hls⟩ p hp => by
      rcases List.mem_append.mp hp with hp | hp
      · exact UnfoldsListed.isMerge_of_mem hls p hp
      · exact Unfolds.isMerge_of_mem hl p hp

end

/-! ## 5. What has a lineage -/

theorem UnfoldsListed.of_mem : ∀ {ids : List NodeId} {ls : List Lineage},
    UnfoldsListed nodes ids ls → ∀ b ∈ ids, ∃ l ∈ ls, Unfolds nodes b l
  | [], _ => fun _ _ hb => absurd hb List.not_mem_nil
  | _ :: _, [] => fun h => h.elim
  | id :: ids, l :: ls => fun ⟨hl, hls⟩ b hb => by
      rcases List.mem_cons.mp hb with rfl | hb
      · exact ⟨l, List.mem_cons_self, hl⟩
      · obtain ⟨l', hl', hb⟩ := UnfoldsListed.of_mem hls b hb
        exact ⟨l', List.mem_cons_of_mem l hl', hb⟩

theorem UnfoldsSources.of_mem : ∀ {ss : List NodeId} {merged : List (List Lineage)},
    UnfoldsSources nodes ss merged →
    ∀ s ∈ ss, ∃ ids ls, listed? nodes s = some ids ∧ ls ∈ merged ∧ UnfoldsListed nodes ids ls
  | [], _ => fun _ _ hs => absurd hs List.not_mem_nil
  | _ :: _, [] => fun h => h.elim
  | s :: ss, ls :: merged => fun ⟨⟨ids, hids, hls⟩, hrest⟩ t ht => by
      rcases List.mem_cons.mp ht with rfl | ht
      · exact ⟨ids, ls, hids, List.mem_cons_self, hls⟩
      · obtain ⟨ids', ls', hids', hmem, hls'⟩ := UnfoldsSources.of_mem hrest t ht
        exact ⟨ids', ls', hids', List.mem_cons_of_mem ls hmem, hls'⟩

/-- The lineage of a merged mapping is a part of the lineage. -/
theorem Unfolds.of_merges {a b : NodeId} {l : Lineage} (h : Unfolds nodes a l)
    (hab : Merges nodes a b) : ∃ l', Unfolds nodes b l' ∧ sizeOf l' < sizeOf l := by
  obtain ⟨s, hs, ids, hids, hb⟩ := hab
  cases l with
  | mk merged own =>
    obtain ⟨-, -, hmerged⟩ := h
    obtain ⟨ids', ls, hids', hmem, hls⟩ := hmerged.of_mem s hs
    obtain rfl : ids = ids' := Option.some.inj (hids.symm.trans hids')
    obtain ⟨l', hl', hbl⟩ := hls.of_mem b hb
    have hlt := List.sizeOf_lt_of_mem hl'
    have hlt' := List.sizeOf_lt_of_mem hmem
    refine ⟨l', hbl, ?_⟩
    rw [Lineage.mk.sizeOf_spec]
    omega

theorem Unfolds.of_transGen {a b : NodeId} {l : Lineage} (h : Unfolds nodes a l)
    (hab : Relation.TransGen (Merges nodes) a b) :
    ∃ l', Unfolds nodes b l' ∧ sizeOf l' < sizeOf l := by
  induction hab with
  | single hab => exact h.of_merges hab
  | tail _ hbc ih =>
    obtain ⟨l', hl', hlt⟩ := ih
    obtain ⟨l'', hl'', hlt'⟩ := hl'.of_merges hbc
    exact ⟨l'', hl'', Nat.lt_trans hlt' hlt⟩

/-- A mapping with a lineage can be merged: a cycle would make a lineage a part of itself. -/
theorem Unfolds.mergeable {id : NodeId} {l : Lineage} (h : Unfolds nodes id l) :
    Mergeable nodes id := by
  have reached : ∀ a, Relation.ReflTransGen (Merges nodes) id a → ∃ l', Unfolds nodes a l' := by
    intro a ha
    rcases Relation.reflTransGen_iff_eq_or_transGen.mp ha with rfl | ha
    · exact ⟨l, h⟩
    · obtain ⟨l', hl', -⟩ := h.of_transGen ha
      exact ⟨l', hl'⟩
  refine ⟨fun a ha => ?_, fun a ha s hs => ?_, fun a ha hcycle => ?_⟩
  · obtain ⟨l', hl'⟩ := reached a ha
    exact hl'.isMappingAt
  · obtain ⟨⟨merged, own⟩, -, -, hmerged⟩ := reached a ha
    obtain ⟨ids, -, hids, -⟩ := hmerged.of_mem s hs
    exact ⟨ids, hids⟩
  · obtain ⟨l', hl'⟩ := reached a ha
    obtain ⟨l'', hl'', hlt⟩ := hl'.of_transGen hcycle
    rw [hl'.unique hl''] at hlt
    exact Nat.lt_irrefl _ hlt

theorem exists_unfoldsListed : ∀ {ids : List NodeId},
    (∀ b ∈ ids, ∃ l, Unfolds nodes b l) → ∃ ls, UnfoldsListed nodes ids ls
  | [], _ => ⟨[], trivial⟩
  | _ :: _, h => by
      obtain ⟨⟨l, hl⟩, hids⟩ := List.forall_mem_cons.mp h
      obtain ⟨ls, hls⟩ := exists_unfoldsListed hids
      exact ⟨l :: ls, hl, hls⟩

theorem exists_unfoldsSources : ∀ {ss : List NodeId},
    (∀ s ∈ ss, ∃ ids, listed? nodes s = some ids ∧ ∀ b ∈ ids, ∃ l, Unfolds nodes b l) →
    ∃ merged, UnfoldsSources nodes ss merged
  | [], _ => ⟨[], trivial⟩
  | _ :: _, h => by
      obtain ⟨⟨ids, hids, hall⟩, hss⟩ := List.forall_mem_cons.mp h
      obtain ⟨ls, hls⟩ := exists_unfoldsListed hall
      obtain ⟨merged, hmerged⟩ := exists_unfoldsSources hss
      exact ⟨ls :: merged, ⟨ids, hids, hls⟩, hmerged⟩

/-- A mapping is a node that is there. -/
theorem lt_size_of_isMappingAt {id : NodeId} (h : isMappingAt nodes id = true) :
    id < nodes.size := by
  rcases Nat.lt_or_ge id nodes.size with hlt | hge
  · exact hlt
  · rw [isMappingAt, nodeAt, Array.getElem?_eq_none hge] at h
    cases h

/-- Merging leads from one of finitely many nodes to another and never back, so it comes to an
    end. -/
theorem Mergeable.wellFounded {id : NodeId} (h : Mergeable nodes id) :
    WellFounded fun b a : { a // Relation.ReflTransGen (Merges nodes) id a } =>
      Relation.TransGen (Merges nodes) a.1 b.1 := by
  let place : { a // Relation.ReflTransGen (Merges nodes) id a } → Fin nodes.size :=
    fun a => ⟨a.1, lt_size_of_isMappingAt (h.mapping a.1 a.2)⟩
  have hplace : Function.Injective place := fun a b hab =>
    Subtype.ext (Fin.val_eq_of_eq hab)
  have := Finite.of_injective place hplace
  have htrans : IsTrans { a // Relation.ReflTransGen (Merges nodes) id a }
      fun b a => Relation.TransGen (Merges nodes) a.1 b.1 := ⟨fun _ _ _ hcb hba => hba.trans hcb⟩
  have hirrefl : Std.Irrefl fun b a : { a // Relation.ReflTransGen (Merges nodes) id a } =>
      Relation.TransGen (Merges nodes) a.1 b.1 := ⟨fun a => h.acyclic a.1 a.2⟩
  exact Finite.wellFounded_of_trans_of_irrefl _

/-- **A mapping can be merged exactly if it has a lineage.** -/
theorem mergeable_iff {id : NodeId} : Mergeable nodes id ↔ ∃ l, Unfolds nodes id l := by
  refine ⟨fun h => ?_, fun ⟨l, hl⟩ => hl.mergeable⟩
  suffices key : ∀ a : { a // Relation.ReflTransGen (Merges nodes) id a }, ∃ l, Unfolds nodes a.1 l from
    key ⟨id, .refl⟩
  intro a
  induction a using h.wellFounded.induction with
  | h a ih =>
    obtain ⟨merged, hmerged⟩ := exists_unfoldsSources fun s hs => by
      obtain ⟨ids, hids⟩ := h.listed a.1 a.2 s hs
      refine ⟨ids, hids, fun b hb => ?_⟩
      have hab : Merges nodes a.1 b := ⟨s, hs, ids, hids, hb⟩
      exact ih ⟨b, a.2.tail hab⟩ (.single hab)
    exact ⟨.mk merged _, h.mapping a.1 a.2, rfl, hmerged⟩

end Unfolding

end Conform.Markup
