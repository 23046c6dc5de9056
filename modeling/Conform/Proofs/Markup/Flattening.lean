import Mathlib.Algebra.BigOperators.Fin
import Mathlib.Algebra.Order.BigOperators.Group.Finset
import Conform.Proofs.Markup.Keyed
import Conform.Proofs.Markup.Lineage

/-!
# Flattening a mapping

Merging rewrites the nodes of a document while its objects are made: a merging pair is taken out of
its mapping, what it lists is flattened first, and the pairs found so go in front. A mapping may be
flattened long after another one that merges it has flattened it already, so what a flattening finds
depends on what has happened before. Two things carry the proof:

* the number of merging pairs that are left (`mergeCount_eq`), which bounds the steps;
* that every mapping with a lineage smaller than the one at hand is either untouched or flattened
  (`CleanBelow`). A flattening touches no mapping with a larger lineage, nor one without any.

Then a flattened mapping holds the pairs of its lineage (`Flattens.done`), and flattening a mapping
that has a lineage never fails (`exists_flatten`).
-/

namespace Conform.Markup

/-! ## 1. What never changes -/

/-- A content without the pairs of a mapping. -/
def Content.shape : Content → Content
  | .mapping _ => .mapping []
  | c => c

/-- Whether a node is a mapping is seen from its shape. -/
theorem isMappingAt_eq (nodes : Array Node) (id : NodeId) :
    isMappingAt nodes id =
      match (nodeAt nodes id).content.shape with
      | .mapping _ => true
      | _ => false := by
  rw [isMappingAt]
  cases (nodeAt nodes id).content <;> rfl

/-- What a node lists is seen from its shape. -/
theorem listed?_eq (nodes : Array Node) (id : NodeId) :
    listed? nodes id =
      match (nodeAt nodes id).content.shape with
      | .mapping _ => some [id]
      | .sequence items => some items
      | .scalar _ => none := by
  rw [listed?]
  cases (nodeAt nodes id).content <;> rfl

/-- Nodes that differ in the pairs of mappings and in tags at most, but in no merge key. -/
structure Alike (nodes nodes' : Array Node) : Prop where
  shape : ∀ id, (nodeAt nodes' id).content.shape = (nodeAt nodes id).content.shape
  merge : ∀ id, (nodeAt nodes' id).tag = .merge ↔ (nodeAt nodes id).tag = .merge

namespace Alike

variable {nodes nodes' nodes'' : Array Node}

theorem refl (nodes : Array Node) : Alike nodes nodes := ⟨fun _ => rfl, fun _ => Iff.rfl⟩

theorem trans (h : Alike nodes nodes') (h' : Alike nodes' nodes'') : Alike nodes nodes'' :=
  ⟨fun id => (h'.shape id).trans (h.shape id), fun id => (h'.merge id).trans (h.merge id)⟩

theorem isMerge (h : Alike nodes nodes') : isMerge nodes' = isMerge nodes := by
  funext p
  rw [Markup.isMerge, Markup.isMerge, decide_eq_decide]
  exact h.merge p.1

theorem sources (h : Alike nodes nodes') : sources nodes' = sources nodes := by
  funext ps
  rw [Markup.sources, Markup.sources, h.isMerge]

theorem ownPairs (h : Alike nodes nodes') : ownPairs nodes' = ownPairs nodes := by
  funext ps
  rw [Markup.ownPairs, Markup.ownPairs, h.isMerge]

theorem isMappingAt (h : Alike nodes nodes') (id : NodeId) :
    isMappingAt nodes' id = isMappingAt nodes id := by
  rw [isMappingAt_eq, isMappingAt_eq, h.shape id]

theorem listed? (h : Alike nodes nodes') (id : NodeId) :
    listed? nodes' id = listed? nodes id := by
  rw [listed?_eq, listed?_eq, h.shape id]

end Alike

section Sources

variable {nodes : Array Node} {ps qs : List (NodeId × NodeId)}

theorem sources_append : sources nodes (ps ++ qs) = sources nodes ps ++ sources nodes qs := by
  rw [sources, List.filter_append, List.map_append]
  rfl

theorem sources_eq_nil : sources nodes ps = [] ↔ ∀ p ∈ ps, isMerge nodes p = false := by
  simp [sources]

theorem ownPairs_of_sources (h : sources nodes ps = []) : ownPairs nodes ps = ps := by
  rw [ownPairs, List.filter_eq_self]
  intro p hp
  rw [sources_eq_nil.mp h p hp]
  rfl

theorem length_sources : (sources nodes ps).length = ps.countP (isMerge nodes) := by
  rw [sources, List.length_map, List.countP_eq_length_filter]

end Sources

namespace Making

/-! ## 2. One step on the nodes -/

theorem nodeAt_modify (nodes : Array Node) (i j : NodeId) (f : Node → Node) :
    nodeAt (nodes.modify i f) j =
      if i = j ∧ j < nodes.size then f (nodeAt nodes j) else nodeAt nodes j := by
  rw [nodeAt, nodeAt, Array.getElem?_modify]
  by_cases hij : i = j
  · by_cases hj : j < nodes.size
    · simp [hij, hj]
    · simp [hj]
  · simp [hij]

section Step

variable {m : Making} {id : NodeId}

theorem nodeAt_setPairs (h : m.isMapping id) (ps : List (NodeId × NodeId)) (j : NodeId) :
    nodeAt (m.setPairs id ps).nodes j =
      if id = j then { m.node id with content := .mapping ps } else m.node j := by
  have hlt : id < m.nodes.size := lt_size_of_isMappingAt h
  rw [setPairs, nodeAt_modify]
  by_cases hj : id = j
  · subst hj
    rw [if_pos ⟨rfl, hlt⟩, if_pos rfl]
    rfl
  · rw [if_neg fun h => hj h.1, if_neg hj]
    rfl

/-- Only the one mapping has other pairs. -/
theorem pairs_setPairs (h : m.isMapping id) (ps : List (NodeId × NodeId)) (j : NodeId) :
    (m.setPairs id ps).pairs j = if id = j then ps else m.pairs j := by
  show pairsAt (m.setPairs id ps).nodes j = _
  rw [pairsAt, nodeAt_setPairs h]
  by_cases hj : id = j
  · rw [if_pos hj, if_pos hj]
    rfl
  · rw [if_neg hj, if_neg hj]
    rfl

theorem alike_setPairs (h : m.isMapping id) (ps : List (NodeId × NodeId)) :
    Alike m.nodes (m.setPairs id ps).nodes := by
  refine ⟨fun j => ?_, fun j => ?_⟩
  · rw [nodeAt_setPairs h]
    split
    · rename_i hj
      subst hj
      unfold isMapping at h
      split at h
      · rename_i hc
        rw [show nodeAt m.nodes id = m.node id from rfl, hc]
        rfl
      · cases h
    · rfl
  · rw [nodeAt_setPairs h]
    split
    · rename_i hj
      subst hj
      exact Iff.rfl
    · exact Iff.rfl

/-- Making value keys strings changes neither a content nor a merge key. -/
theorem nodeAt_plainKeys (m : Making) (ps : List (NodeId × NodeId)) (j : NodeId) :
    (nodeAt (m.plainKeys ps).nodes j).content = (m.node j).content ∧
      ((nodeAt (m.plainKeys ps).nodes j).tag = .merge ↔ (m.node j).tag = .merge) := by
  have fold : ∀ nodes : Array Node,
      (nodeAt (ps.foldl (fun ns p => ns.modify p.1 fun n =>
        if n.tag = .value then { n with tag := .str } else n) nodes) j).content =
          (nodeAt nodes j).content ∧
      ((nodeAt (ps.foldl (fun ns p => ns.modify p.1 fun n =>
        if n.tag = .value then { n with tag := .str } else n) nodes) j).tag = .merge ↔
          (nodeAt nodes j).tag = .merge) := by
    induction ps with
    | nil => exact fun _ => ⟨rfl, Iff.rfl⟩
    | cons p ps ih =>
      intro nodes
      rw [List.foldl_cons]
      refine ⟨(ih _).1.trans ?_, (ih _).2.trans ?_⟩
      · rw [nodeAt_modify]
        split
        · split <;> rfl
        · rfl
      · rw [nodeAt_modify]
        split
        · split
          · rename_i hvalue
            rw [hvalue]
            simp
          · rfl
        · rfl
  exact fold m.nodes

theorem alike_plainKeys (m : Making) (ps : List (NodeId × NodeId)) :
    Alike m.nodes (m.plainKeys ps).nodes :=
  ⟨fun j => congrArg Content.shape (nodeAt_plainKeys m ps j).1, fun j => (nodeAt_plainKeys m ps j).2⟩

theorem pairs_plainKeys (m : Making) (ps : List (NodeId × NodeId)) (j : NodeId) :
    (m.plainKeys ps).pairs j = m.pairs j := by
  show pairsAt (m.plainKeys ps).nodes j = pairsAt m.nodes j
  rw [pairsAt, pairsAt, Node.pairs, (nodeAt_plainKeys m ps j).1]
  rfl

theorem alike_settlePairs (h : m.isMapping id) (merged : List (NodeId × NodeId)) :
    Alike m.nodes (m.settlePairs merged id).nodes := by
  have hplain := alike_plainKeys m (m.pairs id)
  exact hplain.trans (alike_setPairs ((hplain.isMappingAt id).trans h) _)

/-- A settled mapping has the merged pairs in front of its own. -/
theorem pairs_settlePairs (h : m.isMapping id) (merged : List (NodeId × NodeId)) (j : NodeId) :
    (m.settlePairs merged id).pairs j = if id = j then merged ++ m.pairs id else m.pairs j := by
  have hplain := alike_plainKeys m (m.pairs id)
  rw [settlePairs, pairs_setPairs ((hplain.isMappingAt id).trans h), pairs_plainKeys]

end Step

/-! ## 3. The merging pairs that are left -/

/-- Merging pairs are counted mapping by mapping. -/
theorem mergeCount_eq (m : Making) :
    m.mergeCount = ∑ i ∈ Finset.range m.nodes.size, (sources m.nodes (m.pairs i)).length := by
  have hcount : ∀ i : Fin m.nodes.toList.length,
      m.nodes.toList[i].pairs.countP m.merges = (sources m.nodes (m.pairs i)).length := by
    intro i
    have hi : m.node i = m.nodes.toList[i] := by
      rw [node, Array.getElem?_eq_getElem i.2]
      rfl
    rw [length_sources, ← hi]
    rfl
  calc m.mergeCount = m.nodes.toList.foldl (fun n x => n + x.pairs.countP m.merges) 0 := by
        rw [mergeCount, ← Array.foldl_toList]
        refine List.foldl_ext _ _ _ fun n x _ => ?_
        rw [Node.pairs]
        cases x.content <;> rfl
    _ = (m.nodes.toList.map fun x => x.pairs.countP m.merges).sum := by
        rw [List.sum_eq_foldl, List.foldl_map]
    _ = ∑ i : Fin m.nodes.toList.length, m.nodes.toList[i].pairs.countP m.merges :=
        (Fin.sum_univ_fun_getElem m.nodes.toList fun x => x.pairs.countP m.merges).symm
    _ = ∑ i : Fin m.nodes.toList.length, (sources m.nodes (m.pairs i)).length :=
        Fintype.sum_congr _ _ hcount
    _ = ∑ i ∈ Finset.range m.nodes.size, (sources m.nodes (m.pairs i)).length :=
        (Finset.sum_range fun i => (sources m.nodes (m.pairs i)).length).symm

/-- The merging pairs of one mapping are some of all. -/
theorem length_sources_le_mergeCount {m : Making} {id : NodeId} (h : m.isMapping id) :
    (sources m.nodes (m.pairs id)).length ≤ m.mergeCount := by
  rw [mergeCount_eq]
  exact Finset.single_le_sum (f := fun i => (sources m.nodes (m.pairs i)).length)
    (fun _ _ => Nat.zero_le _) (Finset.mem_range.mpr (lt_size_of_isMappingAt h))

section Count

variable {m m' : Making} (halike : Alike m.nodes m'.nodes) (hsize : m'.nodes.size = m.nodes.size)
  (hle : ∀ j, (sources m.nodes (m'.pairs j)).length ≤ (sources m.nodes (m.pairs j)).length)

include halike hsize hle

theorem mergeCount_le : m'.mergeCount ≤ m.mergeCount := by
  rw [mergeCount_eq, mergeCount_eq, hsize, halike.sources]
  exact Finset.sum_le_sum fun j _ => hle j

theorem mergeCount_lt {id : NodeId} (h : m.isMapping id)
    (hlt : (sources m.nodes (m'.pairs id)).length < (sources m.nodes (m.pairs id)).length) :
    m'.mergeCount < m.mergeCount := by
  rw [mergeCount_eq, mergeCount_eq, hsize, halike.sources]
  exact Finset.sum_lt_sum (fun j _ => hle j)
    ⟨id, Finset.mem_range.mpr (lt_size_of_isMappingAt h), hlt⟩

end Count

/-- The first merging pair is taken out and everything else stays. -/
theorem splitMerge_eq_some {m : Making} {source : NodeId} :
    ∀ {ps rest : List (NodeId × NodeId)}, m.splitMerge ps = some (source, rest) →
      sources m.nodes ps = source :: sources m.nodes rest ∧
        ownPairs m.nodes ps = ownPairs m.nodes rest
  | [], _, h => by cases h
  | p :: ps, rest, h => by
      unfold splitMerge at h
      split at h
      · rename_i hp
        cases h
        have hp : isMerge m.nodes p = true := hp
        simp [sources, ownPairs, hp]
      · rename_i hp
        have hp : isMerge m.nodes p = false := Bool.eq_false_iff.mpr hp
        obtain ⟨⟨s, rest'⟩, hsplit, heq⟩ := Option.map_eq_some_iff.mp h
        cases heq
        obtain ⟨hsources, hown⟩ := splitMerge_eq_some hsplit
        simp only [sources, ownPairs] at hsources hown ⊢
        simp only [List.filter_cons, hp, Bool.false_eq_true, if_false, Bool.not_false, if_true]
        exact ⟨hsources, congrArg (p :: ·) hown⟩

theorem splitMerge_eq_none {m : Making} : ∀ {ps : List (NodeId × NodeId)},
    m.splitMerge ps = none → sources m.nodes ps = []
  | [], _ => rfl
  | p :: ps, h => by
      unfold splitMerge at h
      split at h
      · cases h
      · rename_i hp
        have hp : isMerge m.nodes p = false := Bool.eq_false_iff.mpr hp
        have ih := splitMerge_eq_none (Option.map_eq_none_iff.mp h)
        rw [sources, List.filter_cons_of_neg (by rw [hp]; exact Bool.false_ne_true)]
        exact ih

/-- A list of one mapping has the pairs of that mapping. -/
theorem flattenEach_singleton {flatten : NodeId → Making → Except Fault Making} {m : Making}
    {id : NodeId} (h : m.isMapping id) :
    flattenEach flatten [] m [id] = flatten id m >>= fun m' => .ok (m'.pairs id, m') := by
  rw [flattenEach, h]
  cases hflat : flatten id m with
  | error f => rfl
  | ok m₁ =>
    show Except.ok (m₁.pairs id ++ [], m₁) = Except.ok (m₁.pairs id, m₁)
    rw [List.append_nil]

/-- **One step of a flattening**: a merging pair is taken out, what it lists is flattened, and the
    flattening goes on. -/
theorem flattenFrom_succ {m : Making} {id source : NodeId} {rest : List (NodeId × NodeId)}
    (hsplit : m.splitMerge (m.pairs id) = some (source, rest)) (n : Nat)
    (merged : List (NodeId × NodeId)) :
    flattenFrom (n + 1) merged id m =
      match listed? (m.setPairs id rest).nodes source with
      | none => .error .malformed
      | some ids =>
        flattenEach (flattenFrom n []) [] (m.setPairs id rest) ids >>= fun r =>
          flattenFrom n (merged ++ r.1) id r.2 := by
  have hnode : nodeAt (m.setPairs id rest).nodes source = (m.setPairs id rest).node source := rfl
  rw [flattenFrom, hsplit, listed?, hnode]
  dsimp only
  cases hc : ((m.setPairs id rest).node source).content with
  | scalar t => rfl
  | sequence items => rfl
  | mapping ps =>
    have hmapping : (m.setPairs id rest).isMapping source = true := by
      rw [isMapping, hc]
    show _ = flattenEach (flattenFrom n []) [] (m.setPairs id rest) [source] >>= _
    rw [flattenEach_singleton hmapping]
    cases flattenFrom n [] source (m.setPairs id rest) <;> rfl

/-- What is left to merge in a mapping is settled, or one step is done. -/
theorem flattenFrom_eq_ok {n : Nat} {merged : List (NodeId × NodeId)} {id : NodeId} {m m' : Making}
    (hid : m.isMapping id) (hn : m.mergeCount ≤ n) (h : flattenFrom n merged id m = .ok m') :
    (sources m.nodes (m.pairs id) = [] ∧ m' = m.settlePairs merged id) ∨
      ∃ k source rest ids found m₁, n = k + 1 ∧ m.splitMerge (m.pairs id) = some (source, rest) ∧
        listed? (m.setPairs id rest).nodes source = some ids ∧
        flattenEach (flattenFrom k []) [] (m.setPairs id rest) ids = .ok (found, m₁) ∧
        flattenFrom k (merged ++ found) id m₁ = .ok m' := by
  cases n with
  | zero =>
    cases h
    have hle := Nat.le_trans (length_sources_le_mergeCount hid) hn
    exact .inl ⟨List.eq_nil_of_length_eq_zero (Nat.le_zero.mp hle), rfl⟩
  | succ k =>
    cases hsplit : m.splitMerge (m.pairs id) with
    | none =>
      rw [flattenFrom, hsplit] at h
      cases h
      exact .inl ⟨splitMerge_eq_none hsplit, rfl⟩
    | some r =>
      obtain ⟨source, rest⟩ := r
      rw [flattenFrom_succ hsplit] at h
      cases hlisted : listed? (m.setPairs id rest).nodes source with
      | none =>
        rw [hlisted] at h
        cases h
      | some ids =>
        rw [hlisted] at h
        obtain ⟨⟨found, m₁⟩, h₁, h₂⟩ := bind_eq_ok.mp h
        exact .inr ⟨k, source, rest, ids, found, m₁, rfl, rfl, hlisted, h₁, h₂⟩

/-! ## 4. The invariant -/

section Invariant

variable (N : Array Node)

/-- A mapping with a lineage smaller than a bound. -/
def Below (k : Nat) (id : NodeId) : Prop :=
  ∃ l, Unfolds N id l ∧ sizeOf l < k

/-- A mapping that is untouched or flattened. -/
def Clean (m : Making) (id : NodeId) : Prop :=
  ∀ l, Unfolds N id l → m.pairs id = pairsAt N id ∨ m.pairs id = l.pairs

/-- All mappings with a lineage smaller than a bound are untouched or flattened. -/
def CleanBelow (k : Nat) (m : Making) : Prop :=
  ∀ id, Below N k id → Clean N m id

/-- What flattening a mapping comes to. Below any bound it keeps the mappings clean; and if it finds
    them clean, the mapping holds the pairs of its lineage, and no mapping but this one and smaller
    ones has been touched. -/
structure Flattens (id : NodeId) (m m' : Making) : Prop where
  alike : Alike N m'.nodes
  count : m'.mergeCount ≤ m.mergeCount
  settled : sources N (m'.pairs id) = []
  keeps : ∀ k, CleanBelow N k m → CleanBelow N k m'
  done : ∀ l, Unfolds N id l → CleanBelow N (sizeOf l) m → Clean N m id →
    m'.pairs id = l.pairs ∧ ∀ j, j ≠ id → ¬ Below N (sizeOf l) j → m'.pairs j = m.pairs j

/-- What flattening some mappings comes to, and the pairs that are found. -/
structure FlattensEach (merged : List (NodeId × NodeId)) (ids : List NodeId) (m : Making)
    (found : List (NodeId × NodeId)) (m' : Making) : Prop where
  alike : Alike N m'.nodes
  count : m'.mergeCount ≤ m.mergeCount
  settled : sources N merged = [] → sources N found = []
  keeps : ∀ k, CleanBelow N k m → CleanBelow N k m'
  done : ∀ k ls, UnfoldsListed N ids ls → sizeOf ls ≤ k → CleanBelow N k m →
    found = Lineage.pairsOfListed ls ++ merged ∧ ∀ j, ¬ Below N k j → m'.pairs j = m.pairs j

/-- What the rest of a flattening comes to, when some pairs have been found. The mapping itself is
    neither untouched nor flattened now, so the bound must not reach it. -/
structure Continues (merged : List (NodeId × NodeId)) (id : NodeId) (m m' : Making) : Prop where
  alike : Alike N m'.nodes
  count : m'.mergeCount ≤ m.mergeCount
  settled : sources N merged = [] → sources N (m'.pairs id) = []
  keeps : ∀ k, ¬ Below N k id → CleanBelow N k m → CleanBelow N k m'
  done : ∀ k entries, UnfoldsSources N (sources N (m.pairs id)) entries → sizeOf entries ≤ k →
    ¬ Below N k id → CleanBelow N k m →
    m'.pairs id = merged ++ Lineage.pairsOfMerged entries ++ ownPairs N (m.pairs id) ∧
      ∀ j, j ≠ id → ¬ Below N k j → m'.pairs j = m.pairs j

end Invariant

variable {N : Array Node}

theorem Below.mono {k k' : Nat} {id : NodeId} (h : Below N k id) (hle : k ≤ k') : Below N k' id := by
  obtain ⟨l, hl, hlt⟩ := h
  exact ⟨l, hl, Nat.lt_of_lt_of_le hlt hle⟩

theorem CleanBelow.mono {k k' : Nat} {m : Making} (h : CleanBelow N k' m) (hle : k ≤ k') :
    CleanBelow N k m :=
  fun id hid => h id (hid.mono hle)

/-- No mapping is smaller than its own lineage. -/
theorem not_below_sizeOf {id : NodeId} {l : Lineage} (h : Unfolds N id l) :
    ¬ Below N (sizeOf l) id := by
  intro ⟨l', hl', hlt⟩
  rw [h.unique hl'] at hlt
  exact Nat.lt_irrefl _ hlt

theorem Clean.congr {m m' : Making} {id : NodeId} (h : Clean N m id)
    (heq : m'.pairs id = m.pairs id) : Clean N m' id := by
  intro l hl
  rw [heq]
  exact h l hl

/-- If only one mapping is touched, all smaller ones stay clean. -/
theorem CleanBelow.touch {k : Nat} {m m' : Making} {id : NodeId} (h : CleanBelow N k m)
    (hid : ¬ Below N k id) (heq : ∀ j, j ≠ id → m'.pairs j = m.pairs j) : CleanBelow N k m' := by
  intro j hj
  have hne : j ≠ id := by
    intro heq
    exact hid (heq ▸ hj)
  exact (h j hj).congr (heq j hne)

/-! ## 5. Flattening keeps the invariant -/

/-- Settling the pairs ends a flattening. -/
theorem continues_settle {merged : List (NodeId × NodeId)} {id : NodeId} {m : Making}
    (halike : Alike N m.nodes) (hid : m.isMapping id) (hsources : sources N (m.pairs id) = [])
    (hmerged : sources N merged = []) : Continues N merged id m (m.settlePairs merged id) := by
  have hpairs := pairs_settlePairs hid merged
  have hself : (m.settlePairs merged id).pairs id = merged ++ m.pairs id := by
    rw [hpairs, if_pos rfl]
  have hother : ∀ j, j ≠ id → (m.settlePairs merged id).pairs j = m.pairs j := by
    intro j hj
    rw [hpairs, if_neg (Ne.symm hj)]
  have hsettled : sources N ((m.settlePairs merged id).pairs id) = [] := by
    rw [hself, sources_append, hmerged, hsources, List.nil_append]
  have halike' := alike_settlePairs hid merged
  refine ⟨halike.trans halike', ?_, fun _ => hsettled, fun k hk h => h.touch hk hother,
    fun k entries hentries _ _ _ => ⟨?_, fun j hj _ => hother j hj⟩⟩
  · refine mergeCount_le halike' (onlyNodes_settlePairs m merged id).size fun j => ?_
    rw [halike.sources]
    by_cases hj : j = id
    · rw [hj, hsettled]
      exact Nat.zero_le _
    · rw [hother j hj]
  · rw [hsources] at hentries
    obtain rfl : entries = [] := by
      cases entries with
      | nil => rfl
      | cons => exact hentries.elim
    rw [hself, ownPairs_of_sources hsources, Lineage.pairsOfMerged, List.append_nil]

/-- The mappings of a list are flattened one by one, and their pairs come in the opposite order. -/
theorem flattensEach_of {n : Nat} {flatten : NodeId → Making → Except Fault Making}
    (hf : ∀ id m m', Alike N m.nodes → m.isMapping id → m.mergeCount ≤ n →
      flatten id m = .ok m' → Flattens N id m m') :
    ∀ (ids : List NodeId) {merged found : List (NodeId × NodeId)} {m m' : Making},
      Alike N m.nodes → m.mergeCount ≤ n → flattenEach flatten merged m ids = .ok (found, m') →
      FlattensEach N merged ids m found m'
  | [], merged, found, m, m', halike, _, h => by
      cases h
      refine ⟨halike, Nat.le_refl _, fun h => h, fun _ h => h, fun k ls hls _ _ => ?_⟩
      obtain rfl : ls = [] := by
        cases ls with
        | nil => rfl
        | cons => exact hls.elim
      exact ⟨rfl, fun _ _ => rfl⟩
  | id :: ids, merged, found, m, m', halike, hn, h => by
      unfold flattenEach at h
      split at h
      · cases h
      · rename_i hid
        obtain ⟨m₁, h₁, h₂⟩ := bind_eq_ok.mp h
        have first := hf id m m₁ halike (by simpa using hid) hn h₁
        have rest := flattensEach_of hf ids first.alike (Nat.le_trans first.count hn) h₂
        refine ⟨rest.alike, Nat.le_trans rest.count first.count, fun hmerged => ?_,
          fun k hk => rest.keeps k (first.keeps k hk), fun k ls hls hsize hclean => ?_⟩
        · exact rest.settled (by rw [sources_append, first.settled, hmerged, List.nil_append])
        · cases ls with
          | nil => exact hls.elim
          | cons l ls =>
            obtain ⟨hl, hls⟩ := hls
            rw [List.cons.sizeOf_spec] at hsize
            have hbelow : Below N k id := ⟨l, hl, by omega⟩
            have hle : sizeOf l ≤ k := by omega
            obtain ⟨hpairs, hframe⟩ := first.done l hl (hclean.mono hle) (hclean id hbelow)
            obtain ⟨hfound, hframe'⟩ := rest.done k ls hls (by omega) (first.keeps k hclean)
            refine ⟨?_, fun j hj => ?_⟩
            · rw [hfound, hpairs, Lineage.pairsOfListed, List.append_assoc]
            · have hne : j ≠ id := by
                intro heq
                exact hj (heq ▸ hbelow)
              rw [hframe' j hj, hframe j hne fun h => hj (h.mono hle)]

/-- What a clean mapping has left to merge: all of its lineage if it is untouched, and nothing if it is
    flattened already. -/
theorem Clean.left {id : NodeId} {m : Making} {l : Lineage} (h : Clean N m id)
    (hl : Unfolds N id l) : ∃ entries, UnfoldsSources N (sources N (m.pairs id)) entries ∧
      sizeOf entries ≤ sizeOf l ∧
      Lineage.pairsOfMerged entries ++ ownPairs N (m.pairs id) = l.pairs := by
  rcases h l hl with horiginal | hflat
  · cases l with
    | mk merged own =>
      obtain ⟨-, hown, hmerged⟩ := hl
      rw [← horiginal] at hmerged hown
      refine ⟨merged, hmerged, ?_, ?_⟩
      · rw [Lineage.mk.sizeOf_spec]
        omega
      · rw [hown, Lineage.pairs]
  · have hsources : sources N (m.pairs id) = [] := by
      rw [hflat]
      exact sources_eq_nil.mpr hl.isMerge_of_mem
    refine ⟨[], ?_, ?_, ?_⟩
    · rw [hsources]
      trivial
    · cases l with
      | mk merged own =>
        rw [Lineage.mk.sizeOf_spec, List.nil.sizeOf_spec]
        omega
    · rw [ownPairs_of_sources hsources, hflat]
      rfl

/-- A flattening from its start merges the whole lineage. -/
theorem Continues.flattens {id : NodeId} {m m' : Making} (h : Continues N [] id m m') :
    Flattens N id m m' := by
  have done : ∀ l, Unfolds N id l → CleanBelow N (sizeOf l) m → Clean N m id →
      m'.pairs id = l.pairs ∧ ∀ j, j ≠ id → ¬ Below N (sizeOf l) j → m'.pairs j = m.pairs j := by
    intro l hl hbelow hclean
    obtain ⟨entries, hentries, hsize, hpairs⟩ := hclean.left hl
    obtain ⟨hdone, hframe⟩ := h.done _ entries hentries hsize (not_below_sizeOf hl) hbelow
    refine ⟨?_, hframe⟩
    rw [hdone, List.nil_append, hpairs]
  refine ⟨h.alike, h.count, h.settled rfl, fun k hk => ?_, done⟩
  by_cases hid : Below N k id
  · obtain ⟨l, hl, hlt⟩ := hid
    have hle := Nat.le_of_lt hlt
    obtain ⟨hpairs, hframe⟩ := done l hl (hk.mono hle) (hk id ⟨l, hl, hlt⟩)
    have hsmaller := h.keeps (sizeOf l) (not_below_sizeOf hl) (hk.mono hle)
    intro j hj
    by_cases heq : j = id
    · subst heq
      intro l' hl'
      rw [hl.unique hl'] at hpairs
      exact .inr hpairs
    · by_cases hj' : Below N (sizeOf l) j
      · exact hsmaller j hj'
      · exact (hk j hj).congr (hframe j heq hj')
  · exact h.keeps k hid hk

/-- A merging pair has been taken out of a mapping. -/
structure TakesOut (N : Array Node) (id source : NodeId) (rest : List (NodeId × NodeId))
    (m m' : Making) : Prop where
  alike : Alike N m'.nodes
  count : m'.mergeCount < m.mergeCount
  self : m'.pairs id = rest
  other : ∀ j, j ≠ id → m'.pairs j = m.pairs j
  sources : sources N (m.pairs id) = source :: sources N rest
  own : ownPairs N (m.pairs id) = ownPairs N rest

theorem takesOut_setPairs {id source : NodeId} {rest : List (NodeId × NodeId)} {m : Making}
    (halike : Alike N m.nodes) (hid : m.isMapping id)
    (hsplit : m.splitMerge (m.pairs id) = some (source, rest)) :
    TakesOut N id source rest m (m.setPairs id rest) := by
  obtain ⟨hsources, hown⟩ := splitMerge_eq_some hsplit
  have hpairs := pairs_setPairs hid rest
  have hself : (m.setPairs id rest).pairs id = rest := by
    rw [hpairs, if_pos rfl]
  have hother : ∀ j, j ≠ id → (m.setPairs id rest).pairs j = m.pairs j := by
    intro j hj
    rw [hpairs, if_neg (Ne.symm hj)]
  have halike' := alike_setPairs hid rest
  have hlt : (sources m.nodes ((m.setPairs id rest).pairs id)).length <
      (sources m.nodes (m.pairs id)).length := by
    rw [hself, hsources]
    exact Nat.lt_succ_self _
  refine ⟨halike.trans halike', ?_, hself, hother, ?_, ?_⟩
  · refine mergeCount_lt halike' (onlyNodes_setPairs m id rest).size (fun j => ?_) hid hlt
    by_cases hj : j = id
    · rw [hj]
      exact Nat.le_of_lt hlt
    · rw [hother j hj]
  · rw [← halike.sources, hsources]
  · rw [← halike.ownPairs, hown]

/-- A mapping stays one. -/
theorem isMapping_of_alike {id : NodeId} {m m' : Making} (halike : Alike N m.nodes)
    (halike' : Alike N m'.nodes) (hid : m.isMapping id) : m'.isMapping id := by
  have h : isMappingAt m'.nodes id = isMappingAt m.nodes id := by
    rw [halike'.isMappingAt, halike.isMappingAt]
  exact h.trans hid

/-- **Every flattening keeps the invariant.** The induction is on the bound on the merging pairs that
    are left: each step takes one out of its mapping before it flattens what that pair lists. -/
theorem continues_flattenFrom (n : Nat) : ∀ {merged : List (NodeId × NodeId)} {id : NodeId}
    {m m' : Making}, Alike N m.nodes → m.isMapping id → m.mergeCount ≤ n →
    sources N merged = [] → flattenFrom n merged id m = .ok m' → Continues N merged id m m' := by
  induction n with
  | zero =>
    intro merged id m m' halike hid hn hmerged h
    rcases flattenFrom_eq_ok hid hn h with ⟨hsources, rfl⟩ | ⟨k, _, _, _, _, _, hk, _⟩
    · rw [halike.sources] at hsources
      exact continues_settle halike hid hsources hmerged
    · cases hk
  | succ n ih =>
    intro merged id m m' halike hid hn hmerged h
    rcases flattenFrom_eq_ok hid hn h with ⟨hsources, rfl⟩ |
      ⟨k, source, rest, ids, found, m₁, hk, hsplit, hlisted, heach, hnext⟩
    · rw [halike.sources] at hsources
      exact continues_settle halike hid hsources hmerged
    · cases hk
      have taken := takesOut_setPairs halike hid hsplit
      have hn₀ : (m.setPairs id rest).mergeCount ≤ n :=
        Nat.le_of_lt_succ (Nat.lt_of_lt_of_le taken.count hn)
      have each := flattensEach_of
        (fun id m m' ha hid hn h => (ih ha hid hn rfl h).flattens) ids taken.alike hn₀ heach
      have hmerged₁ : sources N (merged ++ found) = [] := by
        rw [sources_append, hmerged, each.settled rfl, List.nil_append]
      have next := ih each.alike (isMapping_of_alike halike each.alike hid)
        (Nat.le_trans each.count hn₀) hmerged₁ hnext
      refine ⟨next.alike,
        Nat.le_trans next.count (Nat.le_trans each.count (Nat.le_of_lt taken.count)),
        fun _ => next.settled hmerged₁, fun k hk hclean => ?_,
        fun k entries hentries hsize hk hclean => ?_⟩
      · exact next.keeps k hk (each.keeps k (hclean.touch hk taken.other))
      · have hclean₀ := hclean.touch hk taken.other
        rw [taken.sources] at hentries
        cases entries with
        | nil => exact hentries.elim
        | cons ls entries =>
          obtain ⟨⟨ids', hids', hls⟩, hentries⟩ := hentries
          rw [List.cons.sizeOf_spec] at hsize
          obtain rfl : ids' = ids := by
            rw [taken.alike.listed?] at hlisted
            exact Option.some.inj (hids'.symm.trans hlisted)
          obtain ⟨hfound, hframe⟩ := each.done k ls hls (by omega) hclean₀
          have hrest : m₁.pairs id = rest := by rw [hframe id hk, taken.self]
          rw [← hrest] at hentries
          obtain ⟨hdone, hframe'⟩ := next.done k entries hentries (by omega) hk
            (each.keeps k hclean₀)
          refine ⟨?_, fun j hj hjk => ?_⟩
          · rw [hdone, hfound, hrest, taken.own, Lineage.pairsOfMerged]
            simp only [List.append_assoc, List.append_nil]
          · rw [hframe' j hj hjk, hframe j hjk, taken.other j hj]

/-- **What flattening a mapping does.** -/
theorem flattens_flatten {id : NodeId} {m m' : Making} (halike : Alike N m.nodes)
    (hid : m.isMapping id) (h : flatten id m = .ok m') : Flattens N id m m' := by
  unfold flatten at h
  split at h
  · exact (continues_flattenFrom _ halike hid (Nat.le_refl _) rfl h).flattens
  · rename_i hany
    -- nothing is left to merge in this mapping, whatever is left in others
    cases h
    have hsources : sources N (m.pairs id) = [] := by
      rw [← halike.sources]
      exact sources_eq_nil.mpr fun p hp => Bool.eq_false_iff.mpr fun hmerges =>
        hany (List.any_eq_true.mpr ⟨p, hp, hmerges⟩)
    exact (continues_settle halike hid hsources rfl).flattens

/-! ## 6. Merging never fails -/

theorem exists_flattenEach {n : Nat} {flatten : NodeId → Making → Except Fault Making}
    (hf : ∀ id m m', Alike N m.nodes → m.isMapping id → m.mergeCount ≤ n →
      flatten id m = .ok m' → Flattens N id m m')
    (hok : ∀ id m l, Alike N m.nodes → m.mergeCount ≤ n → Unfolds N id l →
      CleanBelow N (sizeOf l + 1) m → ∃ m', flatten id m = .ok m') :
    ∀ (ids : List NodeId) (merged : List (NodeId × NodeId)) {ls : List Lineage} {k : Nat}
      {m : Making}, Alike N m.nodes → m.mergeCount ≤ n → UnfoldsListed N ids ls →
      sizeOf ls ≤ k → CleanBelow N k m → ∃ r, flattenEach flatten merged m ids = .ok r
  | [], merged, _, _, m, _, _, _, _, _ => ⟨(merged, m), rfl⟩
  | _ :: _, _, [], _, _, _, _, hls, _, _ => hls.elim
  | id :: ids, merged, l :: ls, k, m, halike, hn, ⟨hl, hls⟩, hsize, hclean => by
      rw [List.cons.sizeOf_spec] at hsize
      obtain ⟨m₁, h₁⟩ := hok id m l halike hn hl (hclean.mono (by omega))
      have hid : m.isMapping id = true := (halike.isMappingAt id).trans hl.isMappingAt
      have first := hf id m m₁ halike hid hn h₁
      obtain ⟨r, hr⟩ := exists_flattenEach hf hok ids (m₁.pairs id ++ merged) first.alike
        (Nat.le_trans first.count hn) hls (by omega) (first.keeps k hclean)
      refine ⟨r, ?_⟩
      rw [flattenEach, hid]
      show (flatten id m >>= _) = _
      rw [h₁, ok_bind]
      exact hr

theorem exists_flattenFrom (n : Nat) : ∀ (merged : List (NodeId × NodeId)) {k : Nat}
    {entries : List (List Lineage)} {id : NodeId} {m : Making}, Alike N m.nodes →
    m.isMapping id → m.mergeCount ≤ n → UnfoldsSources N (sources N (m.pairs id)) entries →
    sizeOf entries ≤ k → ¬ Below N k id → CleanBelow N k m →
    ∃ m', flattenFrom n merged id m = .ok m' := by
  induction n with
  | zero => exact fun _ _ _ _ _ _ _ _ _ _ _ _ => ⟨_, rfl⟩
  | succ n ih =>
    intro merged k entries id m halike hid hn hentries hsize hk hclean
    cases hsplit : m.splitMerge (m.pairs id) with
    | none =>
      refine ⟨m.settlePairs merged id, ?_⟩
      rw [flattenFrom, hsplit]
    | some r =>
      obtain ⟨source, rest⟩ := r
      have taken := takesOut_setPairs halike hid hsplit
      have hn₀ : (m.setPairs id rest).mergeCount ≤ n :=
        Nat.le_of_lt_succ (Nat.lt_of_lt_of_le taken.count hn)
      have hclean₀ := hclean.touch hk taken.other
      rw [taken.sources] at hentries
      cases entries with
      | nil => exact hentries.elim
      | cons ls entries =>
        obtain ⟨⟨ids, hids, hls⟩, hentries⟩ := hentries
        rw [List.cons.sizeOf_spec] at hsize
        have hf : ∀ id m m', Alike N m.nodes → m.isMapping id → m.mergeCount ≤ n →
            flattenFrom n [] id m = .ok m' → Flattens N id m m' :=
          fun _ _ _ ha hid hn h => (continues_flattenFrom n ha hid hn rfl h).flattens
        have hok : ∀ id m l, Alike N m.nodes → m.mergeCount ≤ n → Unfolds N id l →
            CleanBelow N (sizeOf l + 1) m → ∃ m', flattenFrom n [] id m = .ok m' := by
          intro id m l ha hn hl hclean
          obtain ⟨entries, hentries, hsize, -⟩ :=
            (hclean id ⟨l, hl, Nat.lt_succ_self _⟩).left hl
          exact ih [] ha ((ha.isMappingAt id).trans hl.isMappingAt) hn hentries hsize
            (not_below_sizeOf hl) (hclean.mono (Nat.le_succ _))
        obtain ⟨⟨found, m₁⟩, h₁⟩ := exists_flattenEach hf hok ids [] taken.alike hn₀ hls
          (Nat.le_trans (by omega : sizeOf ls ≤ 1 + sizeOf ls + sizeOf entries) hsize) hclean₀
        have each := flattensEach_of hf ids taken.alike hn₀ h₁
        have hrest : m₁.pairs id = rest := by
          rw [(each.done k ls hls (by omega) hclean₀).2 id hk, taken.self]
        rw [← hrest] at hentries
        obtain ⟨m', h'⟩ := ih (merged ++ found) each.alike
          (isMapping_of_alike halike each.alike hid) (Nat.le_trans each.count hn₀) hentries
          (by omega) hk (each.keeps k hclean₀)
        refine ⟨m', ?_⟩
        rw [flattenFrom_succ hsplit, taken.alike.listed?, hids]
        show (flattenEach _ _ _ _ >>= _) = _
        rw [h₁, ok_bind]
        exact h'

/-- **Flattening a mapping that can be merged never fails.** -/
theorem exists_flatten {id : NodeId} {l : Lineage} {m : Making} (halike : Alike N m.nodes)
    (hl : Unfolds N id l) (hclean : CleanBelow N (sizeOf l + 1) m) :
    ∃ m', flatten id m = .ok m' := by
  unfold flatten
  split
  · obtain ⟨entries, hentries, hsize, -⟩ := (hclean id ⟨l, hl, Nat.lt_succ_self _⟩).left hl
    exact exists_flattenFrom _ [] halike ((halike.isMappingAt id).trans hl.isMappingAt)
      (Nat.le_refl _) hentries hsize (not_below_sizeOf hl) (hclean.mono (Nat.le_succ _))
  · exact ⟨_, rfl⟩

end Making

end Conform.Markup
