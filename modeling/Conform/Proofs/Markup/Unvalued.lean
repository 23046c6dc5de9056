import Mathlib.Data.Fintype.Pigeonhole
import Conform.Proofs.Markup.Flattening
import Conform.Proofs.Markup.Misread

/-!
# Scalars without a value

A document that has been composed still fails if it is wrong as a document, or if one of its nodes
denotes no value (`Unvalued`): a scalar whose text is none of its kind, or a mapping that stands for
a scalar. This is said of the nodes as they are composed, although merging rewrites them while
objects are made. What carries the proof is that a rewritten node has the text and the kind that it
had (`Rewritten`): the pairs that merging adds to a mapping have no value key.

So whatever stops the loading of a text can be pointed at in the text or in its nodes
(`load_fails`).
-/

namespace Conform.Markup

variable {N nodes : Array Node} {id next : NodeId} {t : Text} {f : Fault}

/-! ## 1. The text of a node -/

/-- A value key of a mapping leads to a node. -/
def LeadsTo (nodes : Array Node) (id next : NodeId) : Prop :=
  ∃ k, (k, next) ∈ pairsAt nodes id ∧ (nodeAt nodes k).tag = .value

/-- The text of a node that is read as a scalar: its own, or that of a node to which a value key
    leads. -/
inductive HasText (nodes : Array Node) : NodeId → Text → Prop where
  | own {id : NodeId} {t : Text} (h : (nodeAt nodes id).content = .scalar t) : HasText nodes id t
  | led {id next : NodeId} {t : Text} (h : LeadsTo nodes id next) (ht : HasText nodes next t) :
      HasText nodes id t

/-- A node denotes no value. -/
inductive Unvalued (nodes : Array Node) : Fault → Prop where
  /-- Its text is none of its kind. -/
  | text {id : NodeId} {t : Text} {f : Fault} (has : HasText nodes id t)
      (fails : Scalar.valueOf? (.computed id) (nodeAt nodes id).tag t = some (.error f)) :
      Unvalued nodes f
  /-- It is a mapping that stands for a time. -/
  | time {id : NodeId} (tag : (nodeAt nodes id).tag = .timestamp)
      (mapping : isMappingAt nodes id = true) : Unvalued nodes .notText
  /-- It stands for a scalar, but its value keys lead into a cycle. -/
  | cycle {id back : NodeId} (tag : Making.emptyOf? (nodeAt nodes id).tag = none)
      (way : Relation.ReflTransGen (LeadsTo nodes) id back)
      (cyclic : Relation.TransGen (LeadsTo nodes) back back) : Unvalued nodes .endless

theorem LeadsTo.isMappingAt (h : LeadsTo nodes id next) : isMappingAt nodes id = true := by
  obtain ⟨k, hk, -⟩ := h
  unfold pairsAt Node.pairs at hk
  unfold Markup.isMappingAt
  cases hcontent : (nodeAt nodes id).content with
  | mapping ps => rfl
  | scalar t =>
    rw [hcontent] at hk
    cases hk
  | sequence items =>
    rw [hcontent] at hk
    cases hk

/-- **A way of value keys that is longer than there are nodes leads into a cycle.** -/
theorem exists_cycle {n : Nat} {way : Nat → NodeId}
    (h : ∀ i < n, LeadsTo nodes (way i) (way (i + 1))) (hn : nodes.size < n) :
    ∃ back, Relation.ReflTransGen (LeadsTo nodes) (way 0) back ∧
      Relation.TransGen (LeadsTo nodes) back back := by
  have reaches : ∀ k i, i < k → k ≤ n → Relation.TransGen (LeadsTo nodes) (way i) (way k) := by
    intro k
    induction k with
    | zero => exact fun i hi => absurd hi (Nat.not_lt_zero i)
    | succ k ih =>
      intro i hi hk
      rcases Nat.lt_succ_iff_lt_or_eq.mp hi with hlt | rfl
      · exact (ih i hlt (Nat.le_of_succ_le hk)).tail (h k hk)
      · exact .single (h i hk)
  have hback : ∀ i k, i < k → k ≤ n → way i = way k →
      ∃ back, Relation.ReflTransGen (LeadsTo nodes) (way 0) back ∧
        Relation.TransGen (LeadsTo nodes) back back := by
    intro i k hik hk heq
    refine ⟨way i, ?_, ?_⟩
    · rcases Nat.eq_zero_or_pos i with rfl | hpos
      · exact .refl
      · exact (reaches i 0 hpos (Nat.le_of_lt (Nat.lt_of_lt_of_le hik hk))).to_reflTransGen
    · have hround := reaches k i hik hk
      rwa [← heq] at hround
  obtain ⟨i, k, hne, heq⟩ := Fintype.exists_ne_map_eq_of_card_lt
    (fun i : Fin n => (⟨way i, lt_size_of_isMappingAt (h i i.2).isMappingAt⟩ : Fin nodes.size))
    (by simpa using hn)
  have heq : way i = way k := Fin.val_eq_of_eq heq
  rcases Nat.lt_or_gt_of_ne fun e => hne (Fin.ext e) with hlt | hlt
  · exact hback i k hlt (Nat.le_of_lt k.2) heq
  · exact hback k i hlt (Nat.le_of_lt i.2) heq.symm

/-! ## 2. What rewriting keeps -/

/-- A tag after value keys have become strings. -/
def BecomesPlain (tag tag' : Tag) : Prop :=
  tag' = tag ∨ tag = .value ∧ tag' = .str

theorem BecomesPlain.trans {tag tag' tag'' : Tag} (h : BecomesPlain tag tag')
    (h' : BecomesPlain tag' tag'') : BecomesPlain tag tag'' := by
  rcases h with rfl | ⟨hvalue, rfl⟩
  · exact h'
  · rcases h' with rfl | ⟨hstr, -⟩
    · exact .inr ⟨hvalue, rfl⟩
    · cases hstr

theorem BecomesPlain.ne_value {tag tag' : Tag} (h : BecomesPlain tag tag') (hne : tag ≠ .value) :
    tag' ≠ .value := by
  rcases h with rfl | ⟨hvalue, -⟩
  · exact hne
  · exact absurd hvalue hne

/-- Nodes as merging has rewritten them. A value key may have become a string, and the value keys
    that a mapping still has were its own. -/
structure Rewritten (N nodes : Array Node) : Prop where
  size : nodes.size = N.size
  shape : ∀ id, (nodeAt nodes id).content.shape = (nodeAt N id).content.shape
  tag : ∀ id, BecomesPlain (nodeAt N id).tag (nodeAt nodes id).tag
  value : ∀ id, ∀ p ∈ pairsAt nodes id, (nodeAt nodes p.1).tag = .value → p ∈ pairsAt N id

namespace Rewritten

theorem refl (N : Array Node) : Rewritten N N :=
  ⟨rfl, fun _ => rfl, fun _ => .inl rfl, fun _ _ hp _ => hp⟩

theorem isMappingAt (h : Rewritten N nodes) (id : NodeId) :
    isMappingAt nodes id = isMappingAt N id := by
  rw [isMappingAt_eq, isMappingAt_eq, h.shape id]

theorem content_eq_scalar (h : Rewritten N nodes) (hid : (nodeAt nodes id).content = .scalar t) :
    (nodeAt N id).content = .scalar t := by
  have hshape := h.shape id
  rw [hid] at hshape
  cases hcontent : (nodeAt N id).content with
  | scalar t' =>
    rw [hcontent] at hshape
    exact hshape.symm
  | sequence items =>
    rw [hcontent] at hshape
    cases hshape
  | mapping ps =>
    rw [hcontent] at hshape
    cases hshape

/-- What is a value key was one. -/
theorem tag_eq_value (h : Rewritten N nodes) (hid : (nodeAt nodes id).tag = .value) :
    (nodeAt N id).tag = .value := by
  rcases h.tag id with htag | ⟨htag, -⟩
  · rw [← htag, hid]
  · exact htag

/-- What is no string has the tag that it had. -/
theorem tag_of_ne_str (h : Rewritten N nodes) (hid : (nodeAt nodes id).tag ≠ .str) :
    (nodeAt N id).tag = (nodeAt nodes id).tag := by
  rcases h.tag id with htag | ⟨-, hstr⟩
  · exact htag.symm
  · exact absurd hstr hid

theorem leadsTo (h : Rewritten N nodes) (hlead : LeadsTo nodes id next) : LeadsTo N id next := by
  obtain ⟨k, hk, hvalue⟩ := hlead
  exact ⟨k, h.value id _ hk hvalue, h.tag_eq_value hvalue⟩

end Rewritten

namespace Making

variable {m m' : Making} {ps merged : List (NodeId × NodeId)}

/-- No key of some pairs is a value key. -/
def NoValues (m : Making) (ps : List (NodeId × NodeId)) : Prop :=
  ∀ p ∈ ps, (m.node p.1).tag ≠ .value

/-- What is no value key becomes none. -/
def Plainer (m m' : Making) : Prop :=
  ∀ id, (m'.node id).tag = .value → (m.node id).tag = .value

theorem NoValues.later (h : m.NoValues ps) (hm : m.Plainer m') : m'.NoValues ps :=
  fun p hp hvalue => h p hp (hm p.1 hvalue)

theorem tag_setPairs (h : m.isMapping id) (ps : List (NodeId × NodeId)) (j : NodeId) :
    ((m.setPairs id ps).node j).tag = (m.node j).tag := by
  show (nodeAt (m.setPairs id ps).nodes j).tag = _
  rw [nodeAt_setPairs h]
  split
  · rename_i hj
    rw [hj]
  · rfl

/-- A mapping may get pairs whose value keys it had. -/
theorem rewritten_setPairs (hm : Rewritten N m.nodes) (h : m.isMapping id)
    (hps : ∀ p ∈ ps, (m.node p.1).tag = .value → p ∈ pairsAt N id) :
    Rewritten N (m.setPairs id ps).nodes := by
  refine ⟨(onlyNodes_setPairs m id ps).size.trans hm.size, fun j => ?_, fun j => ?_,
    fun j p hp hvalue => ?_⟩
  · rw [(alike_setPairs h ps).shape j, hm.shape j]
  · have htag := tag_setPairs h ps j
    rw [show nodeAt (m.setPairs id ps).nodes j = (m.setPairs id ps).node j from rfl, htag]
    exact hm.tag j
  · have hvalue : (m.node p.1).tag = .value := (tag_setPairs h ps p.1).symm.trans hvalue
    have hpair : p ∈ (m.setPairs id ps).pairs j := hp
    rw [pairs_setPairs h] at hpair
    split at hpair
    · rename_i hj
      rw [← hj]
      exact hps p hpair hvalue
    · exact hm.value j p hpair hvalue

/-- Value keys become strings, other keys stay as they are. -/
theorem tag_plainKeys (m : Making) (ps : List (NodeId × NodeId)) (j : NodeId) :
    BecomesPlain (m.node j).tag ((m.plainKeys ps).node j).tag ∧
      ((∃ p ∈ ps, p.1 = j) → ((m.plainKeys ps).node j).tag ≠ .value) := by
  let plain (n : Node) : Node := if n.tag = .value then { n with tag := .str } else n
  have one : ∀ (nodes : Array Node) (k : NodeId),
      BecomesPlain (nodeAt nodes j).tag (nodeAt (nodes.modify k plain) j).tag ∧
        (k = j → (nodeAt (nodes.modify k plain) j).tag ≠ .value) := by
    intro nodes k
    rw [nodeAt_modify]
    split
    · by_cases hvalue : (nodeAt nodes j).tag = .value
      · simp [plain, BecomesPlain, hvalue]
      · simp [plain, BecomesPlain, hvalue]
    · rename_i hno
      refine ⟨.inl rfl, fun hk => ?_⟩
      have hge : nodes.size ≤ j := Nat.le_of_not_lt fun hlt => hno ⟨hk, hlt⟩
      rw [nodeAt, Array.getElem?_eq_none hge]
      decide
  have fold : ∀ nodes : Array Node,
      BecomesPlain (nodeAt nodes j).tag
        (nodeAt (ps.foldl (fun ns p => ns.modify p.1 plain) nodes) j).tag ∧
      ((∃ p ∈ ps, p.1 = j) →
        (nodeAt (ps.foldl (fun ns p => ns.modify p.1 plain) nodes) j).tag ≠ .value) := by
    induction ps with
    | nil =>
      refine fun _ => ⟨.inl rfl, fun h => ?_⟩
      obtain ⟨p, hp, -⟩ := h
      exact absurd hp List.not_mem_nil
    | cons p ps ih =>
      intro nodes
      obtain ⟨hone, hself⟩ := one nodes p.1
      obtain ⟨hrest, hother⟩ := ih (nodes.modify p.1 plain)
      refine ⟨hone.trans hrest, fun h => ?_⟩
      obtain ⟨q, hq, hqj⟩ := h
      rcases List.mem_cons.mp hq with rfl | hq
      · exact hrest.ne_value (hself hqj)
      · exact hother ⟨q, hq, hqj⟩
  exact fold m.nodes

theorem plainer_plainKeys (m : Making) (ps : List (NodeId × NodeId)) : m.Plainer (m.plainKeys ps) :=
  fun j hvalue => Classical.not_not.mp fun hne => (tag_plainKeys m ps j).1.ne_value hne hvalue

theorem rewritten_plainKeys (hm : Rewritten N m.nodes) (ps : List (NodeId × NodeId)) :
    Rewritten N (m.plainKeys ps).nodes := by
  refine ⟨(onlyNodes_plainKeys m ps).size.trans hm.size, fun j => ?_, fun j => ?_,
    fun j p hp hvalue => ?_⟩
  · rw [(alike_plainKeys m ps).shape j, hm.shape j]
  · exact BecomesPlain.trans (hm.tag j) (tag_plainKeys m ps j).1
  · have hpair : p ∈ (m.plainKeys ps).pairs j := hp
    rw [pairs_plainKeys] at hpair
    exact hm.value j p hpair (plainer_plainKeys m ps p.1 hvalue)

/-! ## 3. Flattening -/

/-- What flattening a mapping leaves: it has no value keys any more. -/
structure Smooths (N : Array Node) (id : NodeId) (m m' : Making) : Prop where
  rewritten : Rewritten N m'.nodes
  plainer : m.Plainer m'
  noValues : m'.NoValues (m'.pairs id)

theorem smooths_settlePairs (hm : Rewritten N m.nodes) (h : m.isMapping id)
    (hmerged : m.NoValues merged) : Smooths N id m (m.settlePairs merged id) := by
  have hplain := rewritten_plainKeys hm (m.pairs id)
  have hid : (m.plainKeys (m.pairs id)).isMapping id :=
    ((alike_plainKeys m (m.pairs id)).isMappingAt id).trans h
  have htag := tag_setPairs hid (merged ++ m.pairs id)
  have hno : (m.plainKeys (m.pairs id)).NoValues (merged ++ m.pairs id) := by
    refine List.forall_mem_append.mpr ⟨hmerged.later (plainer_plainKeys m _), fun p hp => ?_⟩
    exact (tag_plainKeys m (m.pairs id) p.1).2 ⟨p, hp, rfl⟩
  refine ⟨rewritten_setPairs hplain hid fun p hp hvalue => absurd hvalue (hno p hp),
    fun j hvalue => plainer_plainKeys m _ j ((htag j).symm.trans hvalue), ?_⟩
  rw [pairs_settlePairs h, if_pos rfl]
  exact fun p hp hvalue => hno p hp ((htag p.1).symm.trans hvalue)

/-- What is left of some pairs when a merging one is taken out were some of them. -/
theorem mem_of_splitMerge {source : NodeId} : ∀ {ps rest : List (NodeId × NodeId)},
    m.splitMerge ps = some (source, rest) → ∀ p ∈ rest, p ∈ ps
  | [], _, h => by cases h
  | q :: ps, rest, h => by
      unfold splitMerge at h
      split at h
      · cases h
        exact fun p hp => List.mem_cons_of_mem q hp
      · obtain ⟨⟨s, rest'⟩, hsplit, heq⟩ := Option.map_eq_some_iff.mp h
        cases heq
        exact List.forall_mem_cons.mpr ⟨List.mem_cons_self, fun p hp =>
          List.mem_cons_of_mem q (mem_of_splitMerge hsplit p hp)⟩

/-- The mappings of a list are flattened one by one. -/
theorem smooths_flattenEach {flatten : NodeId → Making → Except Fault Making}
    (hf : ∀ id m, Rewritten N m.nodes → m.isMapping id →
      Delivers (Smooths N id m) (· = .malformed) (flatten id m)) :
    ∀ (ids : List NodeId) (merged : List (NodeId × NodeId)) (m : Making),
      Rewritten N m.nodes → m.NoValues merged →
      Delivers (fun r => Rewritten N r.2.nodes ∧ m.Plainer r.2 ∧ r.2.NoValues r.1)
        (· = .malformed) (flattenEach flatten merged m ids)
  | [], merged, m, hm, hmerged => ⟨hm, fun _ h => h, hmerged⟩
  | id :: ids, merged, m, hm, hmerged => by
      unfold flattenEach
      refine .ite (fun _ => rfl) fun hid => ?_
      refine Delivers.bind (hf id m hm (by simpa using hid)) fun m₁ _ first => ?_
      have hmerged₁ : m₁.NoValues (m₁.pairs id ++ merged) :=
        List.forall_mem_append.mpr ⟨first.noValues, hmerged.later first.plainer⟩
      refine (smooths_flattenEach hf ids _ m₁ first.rewritten hmerged₁).mono ?_ fun _ h => h
      rintro r - ⟨hr, hplainer, hno⟩
      exact ⟨hr, fun j h => first.plainer j (hplainer j h), hno⟩

/-- **A flattened mapping has no value keys.** The induction is on the bound on the steps. -/
theorem smooths_flattenFrom : ∀ (n : Nat) (merged : List (NodeId × NodeId)) (id : NodeId)
    (m : Making), Rewritten N m.nodes → m.isMapping id → m.NoValues merged →
    Delivers (Smooths N id m) (· = .malformed) (flattenFrom n merged id m)
  | 0, merged, id, m, hm, hid, hmerged => smooths_settlePairs hm hid hmerged
  | n + 1, merged, id, m, hm, hid, hmerged => by
      cases hsplit : m.splitMerge (m.pairs id) with
      | none =>
        rw [flattenFrom, hsplit]
        exact smooths_settlePairs hm hid hmerged
      | some r =>
        obtain ⟨source, rest⟩ := r
        rw [flattenFrom_succ hsplit]
        have htag := tag_setPairs hid rest
        have hm₀ : Rewritten N (m.setPairs id rest).nodes :=
          rewritten_setPairs hm hid fun p hp hvalue =>
            hm.value id p (mem_of_splitMerge hsplit p hp) hvalue
        have hplainer₀ : m.Plainer (m.setPairs id rest) :=
          fun j hvalue => (htag j).symm.trans hvalue
        cases listed? (m.setPairs id rest).nodes source with
        | none => exact rfl
        | some ids =>
          refine Delivers.bind (smooths_flattenEach
            (fun id m hm hid => smooths_flattenFrom n [] id m hm hid (List.forall_mem_nil _))
            ids [] _ hm₀ (List.forall_mem_nil _)) ?_
          rintro ⟨found, m₁⟩ - ⟨hm₁, hplainer₁, hfound⟩
          have hplainer : m.Plainer m₁ := fun j h => hplainer₀ j (hplainer₁ j h)
          have hid₁ : m₁.isMapping id := by
            have h₁ := hm₁.isMappingAt id
            rw [← hm.isMappingAt id] at h₁
            exact h₁.trans hid
          have hnext := smooths_flattenFrom n (merged ++ found) id m₁ hm₁ hid₁
            (List.forall_mem_append.mpr ⟨hmerged.later hplainer, hfound⟩)
          refine hnext.mono ?_ fun _ h => h
          exact fun m' _ h => ⟨h.rewritten, fun j hj => hplainer j (h.plainer j hj), h.noValues⟩

theorem smooths_flatten (hm : Rewritten N m.nodes) (hid : m.isMapping id) :
    Delivers (Smooths N id m) (· = .malformed) (flatten id m) :=
  smooths_flattenFrom _ [] id m hm hid (List.forall_mem_nil _)

/-! ## 4. Making an object -/

/-- Why making objects fails: as a document, or for a node that denotes no value. -/
def MakeFault (N : Array Node) (f : Fault) : Prop :=
  f = .malformed ∨ Unvalued N f

/-- A text is that of the node, or value keys lead on as far as the number allows. -/
theorem textFrom_delivers (hm : Rewritten N m.nodes) : ∀ (n : Nat) (id : NodeId),
    Delivers (HasText N id)
      (fun f => f = .malformed ∨ f = .endless ∧ ∃ way : Nat → NodeId, way 0 = id ∧
        ∀ i < n, LeadsTo N (way i) (way (i + 1)))
      (m.textFrom n id)
  | 0, id => .inr ⟨rfl, fun _ => id, rfl, fun i hi => absurd hi (Nat.not_lt_zero i)⟩
  | n + 1, id => by
      unfold textFrom
      cases hcontent : (m.node id).content with
      | scalar t => exact .own (hm.content_eq_scalar hcontent)
      | sequence items => exact .inl rfl
      | mapping ps =>
        dsimp only
        cases hfind : ps.find? fun p => (m.node p.1).tag = .value with
        | none => exact .inl rfl
        | some p =>
          have hvalue : (m.node p.1).tag = .value := by simpa using List.find?_some hfind
          have hlead : LeadsTo N id p.2 := by
            refine hm.leadsTo ⟨p.1, ?_, hvalue⟩
            show p ∈ m.pairs id
            rw [pairs, hcontent]
            exact List.mem_of_find?_eq_some hfind
          refine (textFrom_delivers hm n p.2).mono (fun _ _ ht => .led hlead ht) fun f hf => ?_
          refine hf.imp_right ?_
          rintro ⟨rfl, way, hstart, hway⟩
          refine ⟨rfl, fun i => i.casesOn id way, rfl, fun i hi => ?_⟩
          cases i with
          | zero =>
            show LeadsTo N id (way 0)
            rw [hstart]
            exact hlead
          | succ i => exact hway i (Nat.lt_of_succ_lt_succ hi)

/-- A node that stands for a scalar has a text, or its value keys lead into a cycle. -/
theorem text_delivers (hm : Rewritten N m.nodes) (htag : emptyOf? (nodeAt N id).tag = none) :
    Delivers (HasText N id) (MakeFault N) (m.text id) := by
  refine (textFrom_delivers hm (m.nodes.size + 1) id).mono (fun _ _ h => h) fun f hf =>
    hf.imp_right ?_
  rintro ⟨rfl, way, rfl, hway⟩
  obtain ⟨back, hreaches, hcycle⟩ := exists_cycle hway (by rw [hm.size]; exact Nat.lt_succ_self _)
  exact .cycle htag hreaches hcycle

/-- **A node becomes an object, or it denotes no value.** -/
theorem make_delivers (hm : Rewritten N m.nodes) (id : NodeId) :
    Delivers (fun m' => Rewritten N m'.nodes) (MakeFault N) (make id m) := by
  unfold make
  refine .ite (fun _ => hm) fun _ => ?_
  dsimp only
  split
  · exact hm
  · rename_i hempty
    split
    · exact .inl rfl
    · exact .inl rfl
    · exact .inl rfl
    · have htag : emptyOf? (nodeAt N id).tag = none := by
        rcases hm.tag id with hsame | ⟨hvalue, -⟩
        · rw [← hsame]
          exact hempty
        · rw [hvalue]
          rfl
      refine Delivers.bind (text_delivers hm htag) fun t _ ht => ?_
      refine .ite (fun htime => .inr ?_) fun _ => ?_
      · obtain ⟨htime, hmapping⟩ := Bool.and_eq_true_iff.mp htime
        have htime : (nodeAt m.nodes id).tag = .timestamp := of_decide_eq_true htime
        refine .time ?_ ((hm.isMappingAt id).symm.trans hmapping)
        rw [hm.tag_of_ne_str (by rw [htime]; exact nofun), htime]
      · cases hvalue : Scalar.valueOf? (.computed id) (m.node id).tag t with
        | none => exact .inl rfl
        | some r =>
          cases r with
          | ok a => exact hm
          | error f =>
            refine .inr (.text ht ?_)
            rw [hm.tag_of_ne_str fun hstr => ?_]
            · exact hvalue
            · rw [show (m.node id).tag = .str from hstr] at hvalue
              cases hvalue

theorem makeEach_delivers : ∀ (ids : List NodeId) {m : Making}, Rewritten N m.nodes →
    Delivers (fun m' => Rewritten N m'.nodes) (MakeFault N) (makeEach ids m)
  | [], _, hm => hm
  | id :: ids, _, hm => Delivers.bind (make_delivers hm id) fun _ _ hm₁ => makeEach_delivers ids hm₁

/-! ## 5. Filling a collection -/

theorem makePairs_delivers : ∀ (ps : List (NodeId × NodeId)) (entries : List (Ref × Ref))
    {m : Making}, Rewritten N m.nodes →
    Delivers (fun r => Rewritten N r.2.nodes) (MakeFault N) (makePairs entries ps m)
  | [], _, _, hm => hm
  | (k, v) :: ps, _, _, hm =>
      Delivers.bind (make_delivers hm k) fun _ _ hm₁ => .ite (fun _ => .inl rfl) fun _ =>
        Delivers.bind (make_delivers hm₁ v) fun _ _ hm₂ => makePairs_delivers ps _ hm₂

theorem makeTuples_delivers : ∀ (ids : List NodeId) (tuples : List Ref) {m : Making},
    Rewritten N m.nodes →
    Delivers (fun r => Rewritten N r.2.nodes) (MakeFault N) (makeTuples tuples ids m)
  | [], _, _, hm => hm
  | id :: ids, tuples, m, hm => by
      unfold makeTuples
      split
      · rename_i k v _
        refine Delivers.bind (make_delivers hm k) fun m₁ _ hm₁ => ?_
        exact Delivers.bind (make_delivers hm₁ v) fun m₂ _ hm₂ => makeTuples_delivers ids _ hm₂
      · exact .inl rfl

theorem entries_delivers (hm : Rewritten N m.nodes) (id : NodeId) :
    Delivers (fun r => Rewritten N r.2.nodes) (MakeFault N) (entries id m) := by
  unfold entries
  refine .ite (fun hid => ?_) fun _ => .inl rfl
  have hflat : Delivers (fun m' => Rewritten N m'.nodes) (MakeFault N) (flatten id m) :=
    (smooths_flatten hm hid).mono (fun _ _ h => h.rewritten) fun _ => .inl
  exact Delivers.bind hflat fun m₁ _ hm₁ => makePairs_delivers (m₁.pairs id) [] hm₁

/-- **A collection is filled, or one of its parts denotes no value.** -/
theorem fill_delivers (hm : Rewritten N m.nodes) (id : NodeId) :
    Delivers (fun m' => Rewritten N m'.nodes) (MakeFault N) (fill id m) := by
  unfold fill
  dsimp only
  split
  · exact Delivers.bind (entries_delivers hm id) fun _ _ h => h
  · exact Delivers.bind (entries_delivers hm id) fun _ _ h => h
  · split
    · rename_i items _
      exact Delivers.bind (makeEach_delivers items hm) fun _ _ h => h
    · exact .inl rfl
  · split
    · rename_i items _
      exact Delivers.bind (makeTuples_delivers items [] hm) fun _ _ h => h
    · exact .inl rfl

theorem fillEach_delivers : ∀ (ids : List NodeId) {m : Making}, Rewritten N m.nodes →
    Delivers (fun m' => Rewritten N m'.nodes) (MakeFault N) (fillEach ids m)
  | [], _, hm => hm
  | id :: ids, _, hm => Delivers.bind (fill_delivers hm id) fun _ _ hm₁ => fillEach_delivers ids hm₁

theorem fillAll_delivers : ∀ (n : Nat) {m : Making}, Rewritten N m.nodes →
    Delivers (fun m' => Rewritten N m'.nodes) (MakeFault N) (fillAll n m)
  | 0, _, hm => hm
  | n + 1, m, hm => by
      unfold fillAll
      split
      · exact hm
      · exact Delivers.bind (fillEach_delivers _ (m := { m with due := [] }) hm) fun _ _ hm₁ =>
          fillAll_delivers n hm₁

end Making

/-! ## 6. Documents -/

theorem document_fails (c : Composed) : Fails (Making.MakeFault c.nodes) c.document := by
  have hstart : Rewritten c.nodes (Making.start c.nodes).nodes := .refl c.nodes
  refine Delivers.bind (Making.make_delivers hstart c.root) fun m₀ _ h₀ => ?_
  exact Delivers.bind (Making.fillAll_delivers (c.nodes.size + 1) h₀) fun _ _ _ => trivial

/-- What brings about a fault in a text that may be a document: something that is misread, or a node
    that denotes no value. -/
def Culprit (text : List Char) (f : Fault) : Prop :=
  Misread text f ∨ ∃ c, composed text = .ok (some c) ∧ Unvalued c.nodes f

/-- **Whatever stops the loading of a text, but that it is no document, stands in the text.** -/
theorem load_fails (text : List Char) :
    Fails (fun f => f = .malformed ∨ Culprit text f) (load text) := by
  rw [load_eq]
  refine Fails.bind (Fails.mono (composed_fails text) fun f hf => hf.imp_right .inl) fun o ho => ?_
  cases o with
  | none => trivial
  | some c =>
    refine Fails.bind (Fails.mono (document_fails c) fun f hf => ?_) fun _ _ => trivial
    exact hf.imp_right fun hu => .inr ⟨c, ho, hu⟩

end Conform.Markup
