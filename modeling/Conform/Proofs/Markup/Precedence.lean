import Conform.Proofs.Markup.Filling
import Conform.Proofs.Markup.Flattening

/-!
# Precedence in loaded mappings

The dictionary that a mapping is loaded as follows from the lineage of the mapping alone, whatever
has been merged, made and filled before it (`mapping_follows_lineage`): its keys are those of the
lineage, each at its first place and in its first form, and each has the value that the lineage gives
it.

While objects are made, the dictionaries that are filled are those of their lineages (`Follows`);
making an object touches none of them, and filling a mapping adds one. All of them are filled in the
end, since a round puts no more collections on the worklist than objects are made.
-/

namespace Conform

/-! ## 1. Keys in a graph -/

namespace Graph

/-- Are two objects the same key? -/
def sameKey (g : Graph) (a b : Ref) : Bool :=
  match g.atom? a, g.atom? b with
  | some x, some y => x.sameKey y
  | _, _ => false

/-- Is an object the key? -/
def isKey (g : Graph) (key : Atom) (r : Ref) : Bool :=
  match g.atom? r with
  | some a => a.sameKey key
  | none => false

theorem sameKey_comm (g : Graph) (a b : Ref) : g.sameKey a b = g.sameKey b a := by
  unfold sameKey
  cases g.atom? a with
  | none => cases g.atom? b <;> rfl
  | some x =>
    cases g.atom? b with
    | none => rfl
    | some y =>
      rw [Bool.eq_iff_iff]
      exact ⟨Atom.sameKey_symm, Atom.sameKey_symm⟩

/-- Being a key picks one of two different keys at most. -/
theorem picks_isKey (g : Graph) (key : Atom) (a b : Ref) : Picks (g.isKey key) g.sameKey a b := by
  unfold Picks isKey sameKey
  cases g.atom? a with
  | none => exact ⟨fun h => (Bool.false_ne_true h).elim, fun h => (Bool.false_ne_true h).elim⟩
  | some x =>
    cases g.atom? b with
    | none => exact ⟨fun h => (Bool.false_ne_true h).elim, fun _ h => (Bool.false_ne_true h).elim⟩
    | some y =>
      refine ⟨fun h => ?_, fun hx hy => Atom.sameKey_trans hx (Atom.sameKey_symm hy)⟩
      rw [Bool.eq_iff_iff]
      exact ⟨fun hx => Atom.sameKey_trans (Atom.sameKey_symm h) hx, fun hy => Atom.sameKey_trans h hy⟩

end Graph

namespace Markup

/-- The entries of a loaded mapping follow its lineage: no two keys are the same; the keys are those
    of the lineage, each where and as it occurs first; and every key has the value that the lineage
    gives it. -/
structure FollowsLineage (g : Graph) (l : Lineage) (entries : List (Ref × Ref)) : Prop where
  atoms : ∀ e ∈ entries, ∃ a, g.atom? e.1 = some a
  distinct : entries.Pairwise fun p q => g.sameKey p.1 q.1 = false
  keys : entries.map (·.1) = l.keys.eraseDupsBy g.sameKey
  value : ∀ key, lookupPair (g.isKey key) entries = l.value? (g.isKey key)

/-- **Gathering the pairs of a lineage follows the lineage.** -/
theorem followsLineage_gatherPairs {g : Graph} {l : Lineage}
    (h : ∀ k ∈ l.keys, ∃ a, g.atom? k = some a) :
    FollowsLineage g l (gatherPairs g.sameKey l.pairs) := by
  refine ⟨fun e he => ?_, distinct_gatherPairs l.pairs, ?_, fun key => ?_⟩
  · obtain ⟨p, hp, heq⟩ := key_mem_gatherPairs he
    exact h e.1 (heq ▸ List.mem_map_of_mem hp)
  · rw [keys_gatherPairs, Lineage.keys]
    congr 1
    funext a b
    exact g.sameKey_comm b a
  · rw [lookupPair_gatherPairs fun p _ q _ => g.picks_isKey key p.1 q.1, Lineage.value?_eq]

namespace Making

/-! ## 2. Making an object -/

/-- Objects have been made: no node has changed, every mapping that is not due was there before, and
    at most as many collections have fallen due as objects are made. -/
structure Makes (m m' : Making) : Prop where
  nodes : m'.nodes = m.nodes
  due : ∀ id ∈ m.due, id ∈ m'.due
  old : ∀ id es, m'.object? id = some (.map es) → id ∉ m'.due → m.object? id = some (.map es)
  advances : Advances m m'

theorem Makes.refl (m : Making) : Makes m m :=
  ⟨rfl, fun _ h => h, fun _ _ h _ => h, .refl m⟩

theorem Makes.trans {m m' m'' : Making} (h : Makes m m') (h' : Makes m' m'') : Makes m m'' :=
  ⟨h'.nodes.trans h.nodes, fun id hid => h'.due id (h.due id hid),
    fun id es hes hid => h.old id es (h'.old id es hes hid) fun hmem => hid (h'.due id hmem),
    h.advances.trans h'.advances⟩

/-- Putting an object leaves no more missing. -/
theorem missing_put_le (m : Making) (id : Ref) (o : Object) : missing (m.put id o) ≤ missing m := by
  rcases Nat.lt_or_ge id m.objects.size with hlt | hge
  · have := missing_put hlt o
    omega
  · rw [missing, missing, put, Array.set!_eq_setIfInBounds, Array.setIfInBounds_eq_of_size_le hge]

theorem makes_make {id : NodeId} {m m' : Making} (hm : m.Keyed) (h : make id m = .ok m') :
    Makes m m' := by
  rcases make_eq_ok h with rfl | ⟨hnone, o, ho, rfl⟩ | ⟨hnone, -, -, a, -, rfl⟩
  · exact .refl _
  · have hlt := hm.lt_size_of_emptyOf? ho
    refine ⟨rfl, fun j hj => List.mem_cons_of_mem id hj, fun j es hes hj => ?_,
      fun j hj => isSome_put o hj, ?_⟩
    · have hne : id ≠ j := by
        intro heq
        exact hj (heq ▸ List.mem_cons_self)
      have hput : (m.put id o).object? j = some (.map es) := hes
      rw [object?_put, if_neg fun h => hne h.1] at hput
      exact hput
    · have hmissing := missing_put hlt o
      rw [hnone, Option.isNone_none, if_pos rfl] at hmissing
      show missing (m.put id o) + (id :: m.due).length ≤ missing m + m.due.length
      rw [List.length_cons]
      omega
  · refine ⟨rfl, fun _ hj => hj, fun j es hes _ => ?_, fun j hj => isSome_put _ hj,
      Nat.add_le_add_right (missing_put_le m id _) _⟩
    rw [object?_put] at hes
    split at hes
    · cases hes
    · exact hes

theorem makes_makeEach : ∀ {ids : List NodeId} {m m' : Making}, m.Keyed →
    makeEach ids m = .ok m' → Makes m m'
  | [], m, _, _, h => by
      cases h
      exact .refl m
  | id :: ids, m, m', hm, h => by
      obtain ⟨m₁, h₁, h₂⟩ := bind_eq_ok.mp h
      exact (makes_make hm h₁).trans (makes_makeEach (keeps_make hm h₁).keyed h₂)

theorem makes_append (m : Making) (items : List Ref) : Makes m (m.append (.tuple items)).2 := by
  have hobject : ∀ j, (m.append (.tuple items)).2.object? j =
      if j = m.objects.size then some (.tuple items) else m.object? j := by
    intro j
    simp only [object?, append, Array.getElem?_push]
    split <;> rfl
  refine ⟨rfl, fun _ h => h, fun j es hes _ => ?_, fun j hj => ?_, ?_⟩
  · rw [hobject] at hes
    split at hes
    · cases hes
    · exact hes
  · rw [hobject]
    split
    · rfl
    · exact hj
  · have hmissing : missing (m.append (.tuple items)).2 = missing m := by
      simp [missing, append]
    rw [hmissing]
    exact Nat.le_refl _

theorem makes_makeTuples : ∀ {ids : List NodeId} {tuples : List Ref} {m : Making}
    {r : List Ref × Making}, m.Keyed → makeTuples tuples ids m = .ok r → Makes m r.2
  | [], _, m, _, _, h => by
      cases h
      exact .refl m
  | id :: ids, tuples, m, r, hm, h => by
      unfold makeTuples at h
      split at h
      · rename_i k v _
        obtain ⟨m₁, h₁, h₂⟩ := bind_eq_ok.mp h
        obtain ⟨m₂, h₃, h₄⟩ := bind_eq_ok.mp h₂
        have k₁ := keeps_make hm h₁
        have k₂ := keeps_make k₁.keyed h₃
        have k₃ := keeps_append k₂.keyed [k, v]
        exact (((makes_make hm h₁).trans (makes_make k₁.keyed h₃)).trans
          (makes_append m₂ [k, v])).trans (makes_makeTuples k₃.keyed h₄)
      · cases h

/-- Keys that are atoms stay the same or different. -/
theorem sameKey_grows {m m' : Making} (hg : m.Grows m') {i j : NodeId}
    (hi : ∃ a, m.atom? i = some a) (hj : ∃ a, m.atom? j = some a) :
    m'.sameKey i j = m.sameKey i j := by
  obtain ⟨a, ha⟩ := hi
  obtain ⟨b, hb⟩ := hj
  rw [sameKey_of_atoms ha hb, sameKey_of_atoms (hg.atom? ha) (hg.atom? hb)]

/-- The pairs of a mapping are made one by one, and gathered as if all of them had been there. -/
theorem makes_makePairs : ∀ {ps : List (NodeId × NodeId)} {entries es : List (Ref × Ref)}
    {m m' : Making}, m.Keyed → (∀ e ∈ entries, ∃ a, m.atom? e.1 = some a) →
    makePairs entries ps m = .ok (es, m') →
      Makes m m' ∧ m.Grows m' ∧ (∀ p ∈ ps, ∃ a, m'.atom? p.1 = some a) ∧
        es = ps.foldl (fun es p => insertPair m'.sameKey p.1 p.2 es) entries
  | [], entries, es, m, m', _, _, h => by
      cases h
      exact ⟨.refl m, .refl m, fun _ hp => absurd hp List.not_mem_nil, rfl⟩
  | (k, v) :: ps, entries, es, m, m', hm, hentries, h => by
      obtain ⟨m₁, h₁, h₂⟩ := bind_eq_ok.mp h
      have k₁ := keeps_make hm h₁
      split at h₂
      · cases h₂
      · rename_i hk
        obtain ⟨a, ha⟩ := Option.ne_none_iff_exists'.mp (by simpa using hk)
        obtain ⟨m₂, h₃, h₄⟩ := bind_eq_ok.mp h₂
        have k₂ := keeps_make k₁.keyed h₃
        have hkey : ∃ a, m₂.atom? k = some a := ⟨a, k₂.grows.atom? ha⟩
        have hold : ∀ e ∈ entries, ∃ a, m₂.atom? e.1 = some a := by
          intro e he
          obtain ⟨b, hb⟩ := hentries e he
          exact ⟨b, k₂.grows.atom? (k₁.grows.atom? hb)⟩
        have hnew : ∀ e ∈ insertPair m₂.sameKey k v entries, ∃ a, m₂.atom? e.1 = some a := by
          intro e he
          rcases key_mem_insertPair he with ⟨q, hq, heq⟩ | ⟨rfl, -⟩
          · exact heq ▸ hold q hq
          · exact hkey
        obtain ⟨hmakes, hgrows, hkeys, rfl⟩ := makes_makePairs k₂.keyed hnew h₄
        refine ⟨((makes_make hm h₁).trans (makes_make k₁.keyed h₃)).trans hmakes,
          (k₁.grows.trans k₂.grows).trans hgrows, ?_, ?_⟩
        · obtain ⟨b, hb⟩ := hkey
          exact List.forall_mem_cons.mpr ⟨⟨b, hgrows.atom? hb⟩, hkeys⟩
        · have hinsert : insertPair m₂.sameKey k v entries = insertPair m'.sameKey k v entries :=
            insertPair_congr fun e he => (sameKey_grows hgrows (hold e he) hkey).symm
          rw [hinsert]
          rfl

/-! ## 3. The dictionaries that are filled -/

/-- What holds of a state with some collections that are still to be filled in this round: its nodes
    are those of the document, except for mappings that are flattened; and every dictionary that is
    filled has the pairs of its lineage. -/
structure Follows (N : Array Node) (todo : List NodeId) (m : Making) : Prop where
  alike : Alike N m.nodes
  clean : ∀ k, CleanBelow N k m
  filled : ∀ id es, m.object? id = some (.map es) → id ∉ todo ++ m.due → ∀ l, Unfolds N id l →
    (∀ k ∈ l.keys, ∃ a, m.atom? k = some a) ∧ es = gatherPairs m.sameKey l.pairs

section Steps

variable {N : Array Node} {todo : List NodeId} {m m' : Making}

/-- A dictionary stays what it is while the objects grow. -/
theorem gathered_grows {l : Lineage} {es : List (Ref × Ref)} (hg : m.Grows m')
    (h : (∀ k ∈ l.keys, ∃ a, m.atom? k = some a) ∧ es = gatherPairs m.sameKey l.pairs) :
    (∀ k ∈ l.keys, ∃ a, m'.atom? k = some a) ∧ es = gatherPairs m'.sameKey l.pairs := by
  obtain ⟨hkeys, rfl⟩ := h
  refine ⟨fun k hk => ?_, ?_⟩
  · obtain ⟨a, ha⟩ := hkeys k hk
    exact ⟨a, hg.atom? ha⟩
  · exact gatherPairs_congr fun p hp q hq => (sameKey_grows hg
      (hkeys p.1 (List.mem_map_of_mem hp)) (hkeys q.1 (List.mem_map_of_mem hq))).symm

theorem Follows.makes (h : Follows N todo m) (hmakes : Makes m m') (hg : m.Grows m') :
    Follows N todo m' := by
  refine ⟨hmakes.nodes ▸ h.alike, fun k id hid => ?_, fun id es hes hid l hl => ?_⟩
  · refine (h.clean k id hid).congr ?_
    show pairsAt m'.nodes id = pairsAt m.nodes id
    rw [hmakes.nodes]
  · rw [List.mem_append, not_or] at hid
    have hfree : id ∉ todo ++ m.due := by
      rw [List.mem_append, not_or]
      exact ⟨hid.1, fun hmem => hid.2 (hmakes.due id hmem)⟩
    exact gathered_grows hg (h.filled id es (hmakes.old id es hes hid.2) hfree l hl)

/-- Flattening a mapping fills nothing. -/
theorem Follows.flatten (h : Follows N todo m) {id : NodeId} (honly : m.OnlyNodes m')
    (hflattens : Flattens N id m m') : Follows N todo m' := by
  refine ⟨hflattens.alike, fun k => hflattens.keeps k (h.clean k), fun j es hes hj l hl => ?_⟩
  have hatom : m'.atom? = m.atom? := by
    funext k
    rw [atom?, atom?, honly.object?]
  have hsame : m'.sameKey = m.sameKey := by
    funext a b
    rw [sameKey, sameKey, hatom]
  rw [honly.object?] at hes
  rw [honly.due] at hj
  rw [hatom, hsame]
  exact h.filled j es hes hj l hl

/-- A collection that is filled leaves the worklist. -/
theorem Follows.put {id : NodeId} (h : Follows N (id :: todo) m) {o : Object}
    (hg : m.Grows (m.put id o))
    (ho : ∀ es, o = .map es → ∀ l, Unfolds N id l →
      (∀ k ∈ l.keys, ∃ a, m.atom? k = some a) ∧ es = gatherPairs m.sameKey l.pairs) :
    Follows N todo (m.put id o) := by
  refine ⟨h.alike, h.clean, fun j es hes hj l hl => gathered_grows hg ?_⟩
  rw [object?_put] at hes
  split at hes
  · rename_i heq
    exact ho es (Option.some.inj hes) l (heq.1 ▸ hl)
  · rename_i hne
    by_cases hij : id = j
    · subst hij
      have hlt := lt_size_of_object? hes
      exact absurd ⟨rfl, hlt⟩ hne
    · refine h.filled j es hes ?_ l hl
      rw [List.cons_append, List.mem_cons, not_or]
      exact ⟨Ne.symm hij, hj⟩

theorem advances_onlyNodes (h : m.OnlyNodes m') : Advances m m' := by
  refine ⟨fun j hj => by rw [h.object?]; exact hj, ?_⟩
  rw [missing, missing, h.objects, h.due]

theorem advances_put (m : Making) (id : Ref) (o : Object) : Advances m (m.put id o) :=
  ⟨fun _ hj => isSome_put o hj, Nat.add_le_add_right (missing_put_le m id o) _⟩

/-! ## 4. Filling a collection -/

/-- The entries of a mapping are the pairs that it has once it is flattened. -/
theorem entries_follow {id : NodeId} {es : List (Ref × Ref)} (hm : m.Keyed)
    (h : Follows N todo m) (hentries : entries id m = .ok (es, m')) :
    Follows N todo m' ∧ Advances m m' ∧ m.Grows m' ∧ ∀ l, Unfolds N id l →
      (∀ k ∈ l.keys, ∃ a, m'.atom? k = some a) ∧ es = gatherPairs m'.sameKey l.pairs := by
  unfold entries at hentries
  split at hentries
  · rename_i hid
    obtain ⟨m₁, hflatten, hpairs⟩ := bind_eq_ok.mp hentries
    have honly := onlyNodes_flattenFrom _ _ _ _ _ hflatten
    have hflattens := flattens_flatten h.alike hid hflatten
    have k₁ := honly.keeps hm
    obtain ⟨hmakes, hgrows, hkeys, hes⟩ :=
      makes_makePairs k₁.keyed (fun _ he => absurd he List.not_mem_nil) hpairs
    refine ⟨(h.flatten honly hflattens).makes hmakes hgrows,
      (advances_onlyNodes honly).trans hmakes.advances, k₁.grows.trans hgrows, fun l hl => ?_⟩
    have hclean : Clean N m id := h.clean _ id ⟨l, hl, Nat.lt_succ_self _⟩
    have hown := (hflattens.done l hl (h.clean _) hclean).1
    rw [hown] at hkeys hes
    refine ⟨fun k hk => ?_, hes⟩
    obtain ⟨p, hp, rfl⟩ := List.mem_map.mp hk
    exact hkeys p hp
  · cases hentries

/-- **Filling a collection keeps the dictionaries what they are**, and adds one if the collection is a
    mapping. -/
theorem fill_follows {id : NodeId} (hm : m.Keyed) (hid : m.holds? id = some none)
    (h : Follows N (id :: todo) m) (hfill : fill id m = .ok m') :
    Follows N todo m' ∧ Advances m m' := by
  -- an object that is no dictionary is put in its place
  have other : ∀ {m₁ : Making} {o : Object}, Follows N (id :: todo) m₁ → Advances m m₁ →
      m.Grows m₁ → (∀ a, o ≠ .atom a) → (∀ es, o ≠ .map es) →
      Follows N todo (m₁.put id o) ∧ Advances m (m₁.put id o) := by
    intro m₁ o h₁ hadvances hgrows hatom hmap
    exact ⟨h₁.put (grows_put_filled (hgrows id _ hid) hatom) fun es heq => absurd heq (hmap es),
      hadvances.trans (advances_put m₁ id o)⟩
  unfold fill at hfill
  dsimp only at hfill
  split at hfill
  · obtain ⟨⟨es, m₁⟩, h₁, h₂⟩ := bind_eq_ok.mp hfill
    cases h₂
    obtain ⟨hfollows, hadvances, hgrows, hes⟩ := entries_follow hm h h₁
    have hput := grows_put_filled (o := .map es) (hgrows id _ hid) (by rintro a ⟨⟩)
    refine ⟨hfollows.put hput fun es' heq l hl => ?_, hadvances.trans (advances_put m₁ id _)⟩
    cases heq
    exact hes l hl
  · obtain ⟨⟨es, m₁⟩, h₁, h₂⟩ := bind_eq_ok.mp hfill
    cases h₂
    obtain ⟨hfollows, hadvances, hgrows, -⟩ := entries_follow hm h h₁
    exact other hfollows hadvances hgrows (by rintro a ⟨⟩) (by rintro es ⟨⟩)
  · split at hfill
    · obtain ⟨m₁, h₁, h₂⟩ := bind_eq_ok.mp hfill
      cases h₂
      have hgrows := (keeps_makeEach _ m m₁ hm h₁).grows
      have hmakes := makes_makeEach hm h₁
      exact other (h.makes hmakes hgrows) hmakes.advances hgrows (by rintro a ⟨⟩) (by rintro es ⟨⟩)
    · cases hfill
  · split at hfill
    · obtain ⟨⟨tuples, m₁⟩, h₁, h₂⟩ := bind_eq_ok.mp hfill
      cases h₂
      have hgrows := (keeps_makeTuples _ [] m _ hm h₁).grows
      have hmakes := makes_makeTuples hm h₁
      exact other (h.makes hmakes hgrows) hmakes.advances hgrows (by rintro a ⟨⟩) (by rintro es ⟨⟩)
    · cases hfill

/-! ## 5. Rounds -/

theorem fillEach_follows : ∀ {ids : List NodeId} {m m' : Making}, m.Keyed →
    (∀ id ∈ ids, m.holds? id = some none) → Follows N ids m → fillEach ids m = .ok m' →
    Follows N [] m' ∧ Advances m m'
  | [], m, _, _, _, h, hfill => by
      cases hfill
      exact ⟨h, .refl m⟩
  | id :: ids, m, m', hm, hids, h, hfill => by
      obtain ⟨m₁, h₁, h₂⟩ := bind_eq_ok.mp hfill
      have hid := hids id List.mem_cons_self
      have k := keeps_fill hm hid h₁
      obtain ⟨hfollows, hadvances⟩ := fill_follows hm hid h h₁
      have hrest : ∀ j ∈ ids, m₁.holds? j = some none := fun j hj =>
        k.grows j _ (hids j (List.mem_cons_of_mem id hj))
      obtain ⟨hfollows', hadvances'⟩ := fillEach_follows k.keyed hrest hfollows h₂
      exact ⟨hfollows', hadvances.trans hadvances'⟩

/-- A new round fills what fell due in the last one. -/
theorem Follows.round (h : Follows N [] m) : Follows N m.due.reverse { m with due := [] } := by
  refine ⟨h.alike, h.clean, fun id es hes hid l hl => h.filled id es hes (fun hmem => hid ?_) l hl⟩
  show id ∈ m.due.reverse ++ []
  rw [List.append_nil, List.mem_reverse]
  exact hmem

/-- **All rounds together leave no dictionary to be filled**, if there are more of them than missing
    objects. -/
theorem fillAll_follows : ∀ {n : Nat} {m m' : Making}, m.Keyed → Follows N [] m →
    missing m < n ∨ m.due = [] → fillAll n m = .ok m' → Follows N [] m' ∧ m'.due = []
  | 0, m, _, _, h, hn, hfill => by
      cases hfill
      exact ⟨h, hn.resolve_left (Nat.not_lt_zero _)⟩
  | n + 1, m, m', hm, h, hn, hfill => by
      unfold fillAll at hfill
      split at hfill
      · rename_i hdue
        cases hfill
        exact ⟨h, hdue⟩
      · rename_i hdue
        obtain ⟨m₁, h₁, h₂⟩ := bind_eq_ok.mp hfill
        have start : m.Keeps { m with due := [] } :=
          ⟨Grows.refl m, hm.places, by simp, fun id entries hid => hm.apart id entries hid⟩
        have hids : ∀ id ∈ m.due.reverse, ({ m with due := [] } : Making).holds? id = some none :=
          fun id hid => hm.due id (List.mem_reverse.mp hid)
        have k := keeps_fillEach _ _ m₁ start.keyed hids h₁
        obtain ⟨hfollows, hadvances⟩ := fillEach_follows start.keyed hids h.round h₁
        have hlt : missing m < n + 1 := hn.resolve_right hdue
        have hmissing : missing m₁ + m₁.due.length ≤ missing m := hadvances.missing
        have hn₁ : missing m₁ < n ∨ m₁.due = [] := by
          cases hdue₁ : m₁.due with
          | nil => exact .inr rfl
          | cons e es =>
            rw [hdue₁, List.length_cons] at hmissing
            exact .inl (by omega)
        exact fillAll_follows k.keyed hfollows hn₁ h₂

end Steps

theorem sameKey_graph {m : Making} {i j : Ref} (hi : ∃ a, m.atom? i = some a) (hj : ∃ a, m.atom? j = some a) :
    m.graph.sameKey i j = m.sameKey i j := by
  obtain ⟨a, ha⟩ := hi
  obtain ⟨b, hb⟩ := hj
  rw [sameKey_of_atoms ha hb, Graph.sameKey, atom?_graph ha, atom?_graph hb]

end Making

/-! ## 6. Documents -/

/-- The dictionaries of a document follow the lineages of their mappings. -/
theorem document_follows {c : Composed} {d : Document} (h : c.document = .ok d) {r : Ref}
    {entries : List (Ref × Ref)} (hr : d.graph.object r = .map entries) {l : Lineage}
    (hl : Unfolds c.nodes r l) : FollowsLineage d.graph l entries := by
  obtain ⟨m₀, m, h₀, h₁, rfl⟩ := document_eq_ok h
  have keyed := Making.keyed_start c.nodes
  have follows : Making.Follows c.nodes [] (.start c.nodes) :=
    ⟨.refl _, fun _ _ _ _ _ => .inl rfl, fun id es hes => by
      rw [Making.object?_start] at hes
      cases hes⟩
  have k₀ := Making.keeps_make keyed h₀
  have makes₀ := Making.makes_make keyed h₀
  have hmissing : Making.missing m₀ < c.nodes.size + 1 := by
    have hadvances : Making.missing m₀ + m₀.due.length ≤ Making.missing (.start c.nodes) :=
      makes₀.advances.missing
    have hall : Making.missing (.start c.nodes) ≤ c.nodes.size := by
      refine Nat.le_trans Array.countP_le_size ?_
      rw [Making.start, Array.size_replicate]
    omega
  obtain ⟨hfollows, hdue⟩ :=
    Making.fillAll_follows k₀.keyed (follows.makes makes₀ k₀.grows) (.inl hmissing) h₁
  have hobject := Making.object?_of_map hr
  have hfree : r ∉ [] ++ m.due := by
    rw [hdue]
    exact List.not_mem_nil
  obtain ⟨hkeys, rfl⟩ := hfollows.filled r entries hobject hfree l hl
  have hsame : gatherPairs m.sameKey l.pairs = gatherPairs m.graph.sameKey l.pairs :=
    gatherPairs_congr fun p hp q hq => (Making.sameKey_graph
      (hkeys p.1 (List.mem_map_of_mem hp)) (hkeys q.1 (List.mem_map_of_mem hq))).symm
  rw [hsame]
  refine followsLineage_gatherPairs fun k hk => ?_
  obtain ⟨a, ha⟩ := hkeys k hk
  exact ⟨a, Making.atom?_graph ha⟩

/-- **Loaded mappings obey one precedence law.** A mapping of a document may hold any pairs, with
    duplicate keys, and merge any mappings, which may merge others in turn, as long as none is merged
    into itself. It then has a lineage, and its dictionary follows that lineage. -/
theorem mapping_follows_lineage {text : List Char} {c : Composed} {d : Document} {r : Ref}
    {entries : List (Ref × Ref)} (hc : composed text = .ok (some c))
    (hd : load text = .ok (some d)) (hr : d.graph.object r = .map entries)
    (hmergeable : Mergeable c.nodes r) :
    ∃ l, Unfolds c.nodes r l ∧ FollowsLineage d.graph l entries := by
  obtain ⟨l, hl⟩ := mergeable_iff.mp hmergeable
  obtain ⟨c', hc', hdocument⟩ := load_eq_ok hd
  obtain rfl : c = c' := Option.some.inj (Except.ok.inj (hc.symm.trans hc'))
  exact ⟨l, hl, document_follows hdocument hr hl⟩

/-- Three mappings: the second merges the first; the last merges a list of both and a mapping of its
    own, and holds one key twice, and one that is the same as a key that it merges. -/
def mergingText : List Char :=
  ("- &a \x7bk: 1, 1: x\x7d\n- &b \x7b<<: *a, k: 2, m: 3\x7d\n" ++
    "- \x7b<<: [*a, *b], <<: \x7bm: 6\x7d, true: y, n: 4, n: 5\x7d").toList

/-- A scalar node. -/
def scalarNode (tag : Tag) (text : String) : Node :=
  ⟨tag, .scalar (Text.ofChars text.toList)⟩

/-- The nodes of the text. -/
def mergingNodes : Array Node :=
  #[⟨.seq, .sequence [1, 6, 12]⟩,
    ⟨.map, .mapping [(2, 3), (4, 5)]⟩,
    scalarNode .str "k", scalarNode .int "1", scalarNode .int "1", scalarNode .str "x",
    ⟨.map, .mapping [(7, 1), (8, 9), (10, 11)]⟩,
    scalarNode .merge "<<", scalarNode .str "k", scalarNode .int "2", scalarNode .str "m",
    scalarNode .int "3",
    ⟨.map, .mapping [(13, 14), (15, 16), (19, 20), (21, 22), (23, 24)]⟩,
    scalarNode .merge "<<", ⟨.seq, .sequence [1, 6]⟩,
    scalarNode .merge "<<", ⟨.map, .mapping [(17, 18)]⟩, scalarNode .str "m", scalarNode .int "6",
    scalarNode .bool "true", scalarNode .str "y", scalarNode .str "n", scalarNode .int "4",
    scalarNode .str "n", scalarNode .int "5"]

/-- The lineage of the last mapping. -/
def mergingLineage : Lineage :=
  let first := .mk [] [(2, 3), (4, 5)]
  .mk [[first, .mk [[first]] [(8, 9), (10, 11)]], [.mk [] [(17, 18)]]]
    [(19, 20), (21, 22), (23, 24)]

theorem merging_follows_lineage : ∃ c d, composed mergingText = .ok (some c) ∧
    load mergingText = .ok (some d) ∧
    d.graph.object 12 = .map [(2, 3), (4, 20), (10, 18), (21, 24)] ∧ Mergeable c.nodes 12 ∧
    ∃ l, Unfolds c.nodes 12 l ∧
      FollowsLineage d.graph l [(2, 3), (4, 20), (10, 18), (21, 24)] := by
  have nodes : (composed mergingText).toOption.join.map (·.nodes) = some mergingNodes := by
    decide +kernel
  have reads : (load mergingText).toOption.join.map (fun d => d.graph.object 12) =
      some (.map [(2, 3), (4, 20), (10, 18), (21, 24)]) := by decide +kernel
  have lineage : Unfolds mergingNodes 12 mergingLineage := by decide +kernel
  obtain ⟨c, hc, hnodes⟩ := Option.map_eq_some_iff.mp nodes
  obtain ⟨d, hd, hobject⟩ := Option.map_eq_some_iff.mp reads
  have hcomposed := eq_ok_of_join hc
  have hload := eq_ok_of_join hd
  have hmergeable : Mergeable c.nodes 12 := by
    rw [hnodes]
    exact lineage.mergeable
  exact ⟨c, d, hcomposed, hload, hobject, hmergeable,
    mapping_follows_lineage hcomposed hload hobject hmergeable⟩

end Markup

end Conform
