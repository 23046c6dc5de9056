import Conform.Proofs.Markup.Keyed
import Conform.Proofs.Markup.Spelling

/-!
# Objects of spelled nodes

Making the objects of nodes that spell a record cannot fail: scalars denote atoms, nothing merges,
and keys are no collections. The collections that have been met and not yet filled are a worklist;
every other object that is there is what its node asks for, and its parts are there (`Filling`).
Once the worklist is empty, everything that can be reached from the root is what it should be
(`fillAll_spec`). A round puts as many collections on the worklist as objects are made, so the number
of missing objects bounds the rounds.
-/

namespace Conform.Markup

/-! ## 1. What a node asks for -/

/-- The atom of a scalar node. -/
def atomOf (nodes : Array Node) (id : NodeId) : Atom :=
  match nodes[id]? with
  | some ⟨tag, .scalar t⟩ =>
    match Scalar.valueOf? (.computed id) tag t with
    | some (.ok a) => a
    | _ => .null
  | _ => .null

/-- Are two scalar nodes the same key? -/
def sameNodes (nodes : Array Node) (i j : NodeId) : Bool :=
  (atomOf nodes i).sameKey (atomOf nodes j)

/-- The object of a node. -/
def target (nodes : Array Node) (id : NodeId) : Object :=
  match nodes[id]? with
  | some ⟨_, .sequence ids⟩ => .list ids
  | some ⟨_, .mapping pairs⟩ => .map (gatherPairs (sameNodes nodes) pairs)
  | _ => .atom (atomOf nodes id)

/-- The nodes that are parts of a node. -/
def parts (nodes : Array Node) (id : NodeId) : List NodeId :=
  match nodes[id]? with
  | some ⟨_, .sequence ids⟩ => ids
  | some ⟨_, .mapping pairs⟩ => pairs.flatMap fun p => [p.1, p.2]
  | _ => []

/-- A node that spells some record. -/
def Spelled (nodes : Array Node) (id : NodeId) : Prop :=
  ∃ r, Spells nodes id r

/-- A scalar node that denotes an atom. -/
def IsScalar (nodes : Array Node) (id : NodeId) : Prop :=
  ∃ n a, nodes[id]? = some n ∧ n.Holds a

/-- A collection of nodes that spell records, with scalars as keys. -/
def IsCollection (nodes : Array Node) (id : NodeId) : Prop :=
  (∃ ids, nodes[id]? = some ⟨.seq, .sequence ids⟩ ∧ ∀ i ∈ ids, Spelled nodes i) ∨
    ∃ pairs, nodes[id]? = some ⟨.map, .mapping pairs⟩ ∧
      ∀ p ∈ pairs, IsScalar nodes p.1 ∧ Spelled nodes p.2

theorem spelled_of_all {nodes : Array Node} {rs : List Record} {front : NodeId}
    {ids : List NodeId} (h : SpellsAll nodes front ids rs) : ∀ i ∈ ids, Spelled nodes i := by
  induction ids generalizing rs with
  | nil => exact fun _ hi => absurd hi List.not_mem_nil
  | cons id ids ih =>
    cases rs with
    | nil => exact h.elim
    | cons r rs => exact List.forall_mem_cons.mpr ⟨⟨r, h.2.1⟩, ih h.2.2⟩

theorem spelled_of_pairs {nodes : Array Node} {es : List (Atom × Record)} {front : NodeId}
    {pairs : List (NodeId × NodeId)} (h : SpellsPairs nodes front pairs es) :
    ∀ p ∈ pairs, IsScalar nodes p.1 ∧ Spelled nodes p.2 := by
  induction pairs generalizing es with
  | nil => exact fun _ hp => absurd hp List.not_mem_nil
  | cons p pairs ih =>
    cases es with
    | nil => exact h.elim
    | cons e es =>
      obtain ⟨n, hn, hholds⟩ := h.1.2
      exact List.forall_mem_cons.mpr ⟨⟨⟨n, e.1, hn, hholds⟩, e.2, h.2.1.2⟩, ih h.2.2⟩

/-- A node that spells a record is a scalar or a collection. -/
theorem Spelled.cases {nodes : Array Node} {id : NodeId} (h : Spelled nodes id) :
    IsScalar nodes id ∨ IsCollection nodes id := by
  obtain ⟨r, hr⟩ := h
  cases r with
  | atom a =>
    obtain ⟨n, hn, hholds⟩ := hr
    exact .inl ⟨n, a, hn, hholds⟩
  | list items =>
    obtain ⟨ids, hn, hall⟩ := hr
    exact .inr (.inl ⟨ids, hn, spelled_of_all hall⟩)
  | map entries =>
    obtain ⟨pairs, hn, hall⟩ := hr
    exact .inr (.inr ⟨pairs, hn, spelled_of_pairs hall⟩)

theorem IsScalar.spelled {nodes : Array Node} {id : NodeId} (h : IsScalar nodes id) :
    Spelled nodes id := by
  obtain ⟨n, a, hn, hholds⟩ := h
  exact ⟨.atom a, n, hn, hholds⟩

theorem atomOf_of_holds {nodes : Array Node} {id : NodeId} {n : Node} {a : Atom}
    (hn : nodes[id]? = some n) (h : n.Holds a) :
    atomOf nodes id = a ∧ target nodes id = .atom a ∧ parts nodes id = [] := by
  obtain ⟨t, rfl, hvalue⟩ := h
  have hatom : atomOf nodes id = a := by
    rw [atomOf, hn]
    simp only [hvalue]
  refine ⟨hatom, ?_, ?_⟩
  · rw [target, hn]
    exact congrArg Object.atom hatom
  · rw [parts, hn]

/-- A collection is no scalar. -/
theorem IsCollection.not_isScalar {nodes : Array Node} {id : NodeId} (h : IsCollection nodes id) :
    ¬ IsScalar nodes id := by
  rintro ⟨n, a, hn, t, rfl, -⟩
  rcases h with ⟨ids, hn', -⟩ | ⟨pairs, hn', -⟩
  · exact nomatch congrArg (Option.map Node.content) (hn.symm.trans hn')
  · exact nomatch congrArg (Option.map Node.content) (hn.symm.trans hn')

theorem Spelled.lt_size {nodes : Array Node} {id : NodeId} (h : Spelled nodes id) :
    id < nodes.size := by
  have hsome : ∃ n, nodes[id]? = some n := by
    rcases h.cases with ⟨n, _, hn, _⟩ | ⟨_, hn, _⟩ | ⟨_, hn, _⟩
    · exact ⟨n, hn⟩
    · exact ⟨_, hn⟩
    · exact ⟨_, hn⟩
  obtain ⟨n, hn⟩ := hsome
  exact (Array.getElem?_eq_some_iff.mp hn).1

/-! ## 2. Objects under their numbers -/

namespace Making

theorem object?_put_of_lt {m : Making} {id : NodeId} (h : id < m.objects.size) (o : Object)
    (i : NodeId) : (m.put id o).object? i = if i = id then some o else m.object? i := by
  rw [object?_put]
  simp only [h, and_true, eq_comm]

theorem size_put (m : Making) (id : NodeId) (o : Object) :
    (m.put id o).objects.size = m.objects.size := by
  simp [put]

/-- How many objects are not there. -/
def missing (m : Making) : Nat :=
  m.objects.countP Option.isNone

theorem missing_put {m : Making} {id : NodeId} (h : id < m.objects.size) (o : Object) :
    missing (m.put id o) + (if (m.object? id).isNone then 1 else 0) = missing m := by
  have hobject : (m.object? id).isNone = (m.objects[id]).isNone := by
    rw [object?, Array.getElem?_eq_getElem h]
    rfl
  have hle : (if (m.objects[id]).isNone then 1 else 0) ≤ m.objects.countP Option.isNone :=
    Array.boole_getElem_le_countP h
  rw [missing, put, Array.set!_eq_setIfInBounds, Array.setIfInBounds, dif_pos h, Array.countP_set h,
    hobject, missing]
  simp only [Option.isNone_some, Bool.false_eq_true, if_false, Nat.add_zero]
  omega

/-! ## 3. The worklist -/

/-- The state of making with a worklist: what is still to be filled in this round, and what is due
    in the next one. -/
structure Filling (nodes : Array Node) (todo : List NodeId) (m : Making) : Prop where
  same : m.nodes = nodes
  size : m.objects.size = nodes.size
  spelled : ∀ id, (m.object? id).isSome → Spelled nodes id
  waiting : ∀ id ∈ todo ++ m.due, (m.object? id).isSome ∧ IsCollection nodes id
  done : ∀ id o, m.object? id = some o → id ∉ todo ++ m.due →
    o = target nodes id ∧ ∀ i ∈ parts nodes id, (m.object? i).isSome

/-- Objects have been made, and at most as many collections have fallen due. -/
structure Advances (m m' : Making) : Prop where
  there : ∀ i, (m.object? i).isSome → (m'.object? i).isSome
  missing : missing m' + m'.due.length ≤ missing m + m.due.length

theorem Advances.refl (m : Making) : Advances m m :=
  ⟨fun _ h => h, Nat.le_refl _⟩

theorem Advances.trans {m m' m'' : Making} (h : Advances m m') (h' : Advances m' m'') : Advances m m'' :=
  ⟨fun i hi => h'.there i (h.there i hi), Nat.le_trans h'.missing h.missing⟩

section Worklist

variable {nodes : Array Node} {todo : List NodeId} {m : Making}

/-- A scalar is never on the worklist, so its object is there as soon as there is one. -/
theorem Filling.atom? (h : Filling nodes todo m) {id : NodeId} (hid : IsScalar nodes id)
    (hsome : (m.object? id).isSome) : m.atom? id = some (atomOf nodes id) := by
  obtain ⟨o, ho⟩ := Option.isSome_iff_exists.mp hsome
  obtain ⟨n, a, hn, hholds⟩ := hid
  have hfree : id ∉ todo ++ m.due := fun hmem => (h.waiting id hmem).2.not_isScalar ⟨n, a, hn, hholds⟩
  obtain ⟨hatom, htarget, -⟩ := atomOf_of_holds hn hholds
  have hobject := (h.done id o ho hfree).1
  rw [Making.atom?, ho, hobject, htarget, hatom]

theorem node_eq (h : Filling nodes todo m) {id : NodeId} {n : Node} (hn : nodes[id]? = some n) :
    m.node id = n := by
  rw [node, h.same, hn]
  rfl

theorem text_eq (h : Filling nodes todo m) {id : NodeId} {tag : Tag} {t : Text}
    (hn : nodes[id]? = some ⟨tag, .scalar t⟩) : m.text id = .ok t := by
  rw [text, textFrom, node_eq h hn]

theorem isSome_put {id : Ref} (o : Object) {i : Ref} (hi : (m.object? i).isSome) :
    ((m.put id o).object? i).isSome := by
  rw [object?_put]
  split
  · rfl
  · exact hi

/-- A scalar that is made is done. -/
theorem Filling.put_atom (h : Filling nodes todo m) {id : NodeId} {n : Node} {a : Atom}
    (hn : nodes[id]? = some n) (hholds : n.Holds a) (hnone : m.object? id = none) :
    Filling nodes todo (m.put id (.atom a)) ∧ Advances m (m.put id (.atom a)) := by
  have hspelled : Spelled nodes id := IsScalar.spelled ⟨n, a, hn, hholds⟩
  have hlt : id < m.objects.size := h.size ▸ hspelled.lt_size
  have hthere : ∀ i, (m.object? i).isSome → ((m.put id (.atom a)).object? i).isSome := fun _ hi =>
    isSome_put _ hi
  refine ⟨⟨h.same, (size_put m id _).trans h.size, fun i hi => ?_, fun i hi => ?_, fun i o ho hi => ?_⟩,
    hthere, ?_⟩
  · rw [object?_put_of_lt hlt] at hi
    split at hi
    · rename_i heq
      exact heq ▸ hspelled
    · exact h.spelled i hi
  · exact ⟨hthere i (h.waiting i hi).1, (h.waiting i hi).2⟩
  · rw [object?_put_of_lt hlt] at ho
    split at ho
    · rename_i heq
      obtain ⟨-, htarget, hparts⟩ := atomOf_of_holds hn hholds
      cases ho
      rw [heq, htarget, hparts]
      exact ⟨rfl, fun _ hmem => absurd hmem List.not_mem_nil⟩
    · obtain ⟨ho, hparts⟩ := h.done i o ho hi
      exact ⟨ho, fun j hj => hthere j (hparts j hj)⟩
  · have hmissing := missing_put hlt (.atom a)
    rw [hnone] at hmissing
    have hdue : (m.put id (.atom a)).due = m.due := rfl
    rw [hdue]
    simp only [Option.isNone_none, if_true] at hmissing
    omega

/-- A collection that is made is due. -/
theorem Filling.put_due (h : Filling nodes todo m) {id : NodeId} (hid : IsCollection nodes id)
    (hspelled : Spelled nodes id) (hnone : m.object? id = none) (o : Object) :
    Filling nodes todo { m.put id o with due := id :: m.due } ∧
      Advances m { m.put id o with due := id :: m.due } := by
  have hlt : id < m.objects.size := h.size ▸ hspelled.lt_size
  have hobject : ∀ i, ({ m.put id o with due := id :: m.due } : Making).object? i =
      if i = id then some o else m.object? i := fun i => object?_put_of_lt hlt o i
  have hthere : ∀ i, (m.object? i).isSome →
      (({ m.put id o with due := id :: m.due } : Making).object? i).isSome := fun _ hi =>
    isSome_put _ hi
  refine ⟨⟨h.same, (size_put m id _).trans h.size, fun i hi => ?_, fun i hi => ?_, fun i o' ho hi => ?_⟩,
    hthere, ?_⟩
  · rw [hobject] at hi
    split at hi
    · rename_i heq
      exact heq ▸ hspelled
    · exact h.spelled i hi
  · rcases List.mem_append.mp hi with hi | hi
    · exact ⟨hthere i (h.waiting i (List.mem_append_left _ hi)).1,
        (h.waiting i (List.mem_append_left _ hi)).2⟩
    · rcases List.mem_cons.mp hi with rfl | hi
      · exact ⟨by rw [hobject, if_pos rfl]; rfl, hid⟩
      · exact ⟨hthere i (h.waiting i (List.mem_append_right _ hi)).1,
          (h.waiting i (List.mem_append_right _ hi)).2⟩
  · rw [List.mem_append, List.mem_cons, not_or, not_or] at hi
    rw [hobject, if_neg hi.2.1] at ho
    have hfree : i ∉ todo ++ m.due := by
      rw [List.mem_append, not_or]
      exact ⟨hi.1, hi.2.2⟩
    obtain ⟨ho, hparts⟩ := h.done i o' ho hfree
    exact ⟨ho, fun j hj => hthere j (hparts j hj)⟩
  · have hmissing := missing_put hlt o
    rw [hnone] at hmissing
    have hsame : missing { m.put id o with due := id :: m.due } = missing (m.put id o) := rfl
    simp only [Option.isNone_none, if_true] at hmissing
    simp only [hsame, List.length_cons]
    omega

theorem make_atom (h : Filling nodes todo m) {id : NodeId} {a : Atom} {t : Text}
    (hn : nodes[id]? = some ⟨tagOfAtom a, .scalar t⟩)
    (hvalue : Scalar.valueOf? (.computed id) (tagOfAtom a) t = some (.ok a))
    (hnone : m.object? id = none) : make id m = .ok (m.put id (.atom a)) := by
  have hempty : emptyOf? (tagOfAtom a) = none := by cases a <;> rfl
  have hmapping : m.isMapping id = false := by rw [isMapping, node_eq h hn]
  rw [make, hnone]
  simp only [Option.isSome_none, Bool.false_eq_true, if_false, node_eq h hn, hempty,
    text_eq h hn, hmapping, Bool.and_false, ok_bind]
  cases a <;>
    · rw [tagOfAtom] at hvalue ⊢
      simp only [hvalue]
      rfl

theorem make_collection (h : Filling nodes todo m) {id : NodeId} (hid : IsCollection nodes id)
    (hnone : m.object? id = none) :
    ∃ o, make id m = .ok { m.put id o with due := id :: m.due } := by
  rcases hid with ⟨ids, hn, -⟩ | ⟨pairs, hn, -⟩
  · refine ⟨.list [], ?_⟩
    rw [make, hnone]
    simp only [Option.isSome_none, Bool.false_eq_true, if_false, node_eq h hn, emptyOf?]
  · refine ⟨.map [], ?_⟩
    rw [make, hnone]
    simp only [Option.isSome_none, Bool.false_eq_true, if_false, node_eq h hn, emptyOf?]

/-- **Making an object keeps the worklist in order.** A scalar is there at once, a collection is put
    on the worklist. -/
theorem make_spec (h : Filling nodes todo m) {id : NodeId} (hid : Spelled nodes id) :
    ∃ m', make id m = .ok m' ∧ Filling nodes todo m' ∧ Advances m m' ∧ (m'.object? id).isSome := by
  have hlt : id < m.objects.size := h.size ▸ hid.lt_size
  have hput : ∀ o, ((m.put id o).object? id).isSome := fun o => by
    rw [object?_put_of_lt hlt, if_pos rfl]
    rfl
  cases hobject : m.object? id with
  | some o =>
    refine ⟨m, ?_, h, .refl m, by rw [hobject]; rfl⟩
    rw [make, hobject]
    rfl
  | none =>
    rcases hid.cases with ⟨n, a, hn, hholds⟩ | hcollection
    · obtain ⟨hfilling, hgrows⟩ := h.put_atom hn hholds hobject
      obtain ⟨t, rfl, hvalue⟩ := hholds
      exact ⟨_, make_atom h hn (hvalue _) hobject, hfilling, hgrows, hput _⟩
    · obtain ⟨o, hmake⟩ := make_collection h hcollection hobject
      obtain ⟨hfilling, hgrows⟩ := h.put_due hcollection hid hobject o
      exact ⟨_, hmake, hfilling, hgrows, hput o⟩

/-- Several objects are made one by one. -/
theorem makeEach_spec : ∀ {ids : List NodeId} {m : Making}, Filling nodes todo m →
    (∀ i ∈ ids, Spelled nodes i) → ∃ m', makeEach ids m = .ok m' ∧ Filling nodes todo m' ∧
      Advances m m' ∧ ∀ i ∈ ids, (m'.object? i).isSome
  | [], m => fun h _ => ⟨m, rfl, h, .refl m, fun _ hi => absurd hi List.not_mem_nil⟩
  | id :: ids, m => fun h hall => by
      obtain ⟨hid, hids⟩ := List.forall_mem_cons.mp hall
      obtain ⟨m₁, hmake, h₁, hgrows₁, hthere₁⟩ := make_spec h hid
      obtain ⟨m₂, hmakes, h₂, hgrows₂, hthere₂⟩ := makeEach_spec h₁ hids
      refine ⟨m₂, ?_, h₂, hgrows₁.trans hgrows₂,
        List.forall_mem_cons.mpr ⟨hgrows₂.there id hthere₁, hthere₂⟩⟩
      rw [makeEach, hmake, ok_bind, hmakes]

/-! ## 4. Filling -/

/-- The pairs of a mapping are gathered by what their keys denote. -/
theorem makePairs_spec : ∀ {ps : List (NodeId × NodeId)} {entries : List (NodeId × NodeId)}
    {m : Making}, Filling nodes todo m → (∀ p ∈ ps, IsScalar nodes p.1 ∧ Spelled nodes p.2) →
    (∀ p ∈ entries, IsScalar nodes p.1 ∧ (m.object? p.1).isSome) →
    ∃ m', makePairs entries ps m =
        .ok (ps.foldl (fun es p => insertPair (sameNodes nodes) p.1 p.2 es) entries, m') ∧
      Filling nodes todo m' ∧ Advances m m' ∧
      ∀ p ∈ ps, (m'.object? p.1).isSome ∧ (m'.object? p.2).isSome
  | [], entries, m => fun h _ _ => ⟨m, rfl, h, .refl m, fun _ hp => absurd hp List.not_mem_nil⟩
  | (k, v) :: ps, entries, m => fun h hall hentries => by
      obtain ⟨⟨hk, hv⟩, hps⟩ := List.forall_mem_cons.mp hall
      obtain ⟨m₁, hmake₁, h₁, hgrows₁, hthere₁⟩ := make_spec h hk.spelled
      obtain ⟨m₂, hmake₂, h₂, hgrows₂, hthere₂⟩ := make_spec h₁ hv
      have hgrows := hgrows₁.trans hgrows₂
      have hkey := h₂.atom? hk (hgrows₂.there k hthere₁)
      have hinsert : insertPair m₂.sameKey k v entries = insertPair (sameNodes nodes) k v entries := by
        refine insertPair_congr fun p hp => ?_
        obtain ⟨hscalar, hthere⟩ := hentries p hp
        rw [Making.sameKey, h₂.atom? hscalar (hgrows.there _ hthere), hkey]
        rfl
      have hentries₂ : ∀ p ∈ insertPair (sameNodes nodes) k v entries,
          IsScalar nodes p.1 ∧ (m₂.object? p.1).isSome := by
        intro p hp
        rcases key_mem_insertPair hp with ⟨q, hq, heq⟩ | ⟨rfl, -⟩
        · rw [← heq]
          exact ⟨(hentries q hq).1, hgrows.there _ (hentries q hq).2⟩
        · exact ⟨hk, hgrows₂.there k hthere₁⟩
      obtain ⟨m₃, hpairs, h₃, hgrows₃, hthere₃⟩ := makePairs_spec h₂ hps hentries₂
      refine ⟨m₃, ?_, h₃, hgrows.trans hgrows₃, List.forall_mem_cons.mpr
        ⟨⟨hgrows₃.there k (hgrows₂.there k hthere₁), hgrows₃.there v hthere₂⟩, hthere₃⟩⟩
      rw [makePairs, hmake₁, ok_bind, h₁.atom? hk hthere₁]
      simp only [Option.isNone_some, Bool.false_eq_true, if_false]
      rw [hmake₂, ok_bind, hinsert, hpairs]
      rfl

theorem modify_self {α : Type} {xs : Array α} {i : Nat} {f : α → α}
    (h : ∀ x, xs[i]? = some x → f x = x) : xs.modify i f = xs := by
  refine Array.ext_getElem? fun j => ?_
  rw [Array.getElem?_modify]
  split
  · rename_i hij
    subst hij
    cases hx : xs[i]? with
    | none => rfl
    | some x => rw [Option.map_some, h x hx]
  · rfl

/-- The tag of a scalar is none of those that mappings look for in their keys. -/
theorem tag_of_isScalar {id : NodeId} {n : Node} (hid : IsScalar nodes id)
    (hn : nodes[id]? = some n) : n.tag ≠ .merge ∧ n.tag ≠ .value := by
  obtain ⟨n', a, hn', t, rfl, -⟩ := hid
  cases hn.symm.trans hn'
  cases a <;> exact ⟨by simp [tagOfAtom], by simp [tagOfAtom]⟩

/-- A mapping with scalars as keys merges nothing. -/
theorem flatten_eq (h : Filling nodes todo m) {id : NodeId} {pairs : List (NodeId × NodeId)}
    (hn : nodes[id]? = some ⟨.map, .mapping pairs⟩) (hkeys : ∀ p ∈ pairs, IsScalar nodes p.1) :
    flatten id m = .ok m := by
  have hpairs : m.pairs id = pairs := by rw [Making.pairs, node_eq h hn]
  have hnode : ∀ p ∈ pairs, ∃ n, nodes[p.1]? = some n ∧ n.tag ≠ .merge ∧ n.tag ≠ .value := by
    intro p hp
    obtain ⟨n, a, hn, hholds⟩ := hkeys p hp
    exact ⟨n, hn, tag_of_isScalar ⟨n, a, hn, hholds⟩ hn⟩
  have hmerges : pairs.any m.merges = false := by
    rw [List.any_eq_false]
    intro p hp
    obtain ⟨n, hn, hmerge, -⟩ := hnode p hp
    simpa [merges, node_eq h hn] using hmerge
  have hplain : m.plainKeys pairs = m := by
    have hfold : ∀ ps : List (NodeId × NodeId), (∀ p ∈ ps, p ∈ pairs) →
        ps.foldl (fun ns p => ns.modify p.1 fun n =>
          if n.tag = .value then { n with tag := .str } else n) m.nodes = m.nodes := by
      intro ps
      induction ps with
      | nil => exact fun _ => rfl
      | cons p ps ih =>
        intro hps
        rw [List.foldl_cons, modify_self, ih fun q hq => hps q (List.mem_cons_of_mem p hq)]
        intro n hn
        obtain ⟨n', hn', -, hvalue⟩ := hnode p (hps p List.mem_cons_self)
        rw [h.same, hn'] at hn
        cases hn
        exact if_neg hvalue
    rw [plainKeys, hfold pairs fun p hp => hp]
  have hset : m.setPairs id pairs = m := by
    rw [setPairs, modify_self]
    intro n hn'
    rw [h.same, hn] at hn'
    cases hn'
    rfl
  rw [flatten, hpairs, hmerges]
  simp only [Bool.false_eq_true, if_false]
  rw [flattenFrom, settlePairs, hpairs, hplain, List.nil_append, hset]

/-- A collection that is filled leaves the worklist. -/
theorem Filling.put_target {id : NodeId} (h : Filling nodes (id :: todo) m)
    (hparts : ∀ i ∈ parts nodes id, (m.object? i).isSome) :
    Filling nodes todo (m.put id (target nodes id)) ∧ Advances m (m.put id (target nodes id)) := by
  have hid := h.waiting id (List.mem_append_left _ List.mem_cons_self)
  have hlt : id < m.objects.size := h.size ▸ (h.spelled id hid.1).lt_size
  have hthere : ∀ i, (m.object? i).isSome → ((m.put id (target nodes id)).object? i).isSome :=
    fun _ hi => isSome_put _ hi
  refine ⟨⟨h.same, (size_put m id _).trans h.size, fun i hi => ?_, fun i hi => ?_, fun i o ho hi => ?_⟩,
    hthere, ?_⟩
  · rw [object?_put_of_lt hlt] at hi
    split at hi
    · rename_i heq
      exact heq ▸ h.spelled id hid.1
    · exact h.spelled i hi
  · have hwaiting := h.waiting i (List.mem_cons_of_mem id hi)
    exact ⟨hthere i hwaiting.1, hwaiting.2⟩
  · rw [object?_put_of_lt hlt] at ho
    split at ho
    · rename_i heq
      cases ho
      rw [heq]
      exact ⟨rfl, fun j hj => hthere j (hparts j hj)⟩
    · rename_i hne
      have hfree : i ∉ (id :: todo) ++ m.due := by
        rw [List.cons_append, List.mem_cons, not_or]
        exact ⟨hne, hi⟩
      obtain ⟨ho, hparts'⟩ := h.done i o ho hfree
      exact ⟨ho, fun j hj => hthere j (hparts' j hj)⟩
  · have hmissing := missing_put hlt (target nodes id)
    have hnone : (m.object? id).isNone = false := by
      rw [Option.isNone_eq_false_iff]
      exact hid.1
    rw [hnone] at hmissing
    have hdue : (m.put id (target nodes id)).due = m.due := rfl
    simp only [Bool.false_eq_true, if_false] at hmissing
    rw [hdue]
    omega

/-- **Filling a collection keeps the worklist in order.** -/
theorem fill_spec {id : NodeId} (h : Filling nodes (id :: todo) m) :
    ∃ m', fill id m = .ok m' ∧ Filling nodes todo m' ∧ Advances m m' := by
  obtain ⟨-, hid⟩ := h.waiting id (List.mem_append_left _ List.mem_cons_self)
  rcases hid with ⟨ids, hn, hids⟩ | ⟨pairs, hn, hpairs⟩
  · have htarget : target nodes id = .list ids ∧ parts nodes id = ids := by
      rw [target, parts, hn]
      exact ⟨rfl, rfl⟩
    obtain ⟨m₁, hmake, h₁, hgrows₁, hthere₁⟩ := makeEach_spec h hids
    obtain ⟨h₂, hgrows₂⟩ := h₁.put_target (by rw [htarget.2]; exact hthere₁)
    refine ⟨_, ?_, h₂, hgrows₁.trans hgrows₂⟩
    rw [fill, node_eq h hn, htarget.1]
    simp only [hmake, ok_bind]
    rfl
  · have htarget : target nodes id = .map (gatherPairs (sameNodes nodes) pairs) ∧
        parts nodes id = pairs.flatMap fun p => [p.1, p.2] := by
      rw [target, parts, hn]
      exact ⟨rfl, rfl⟩
    obtain ⟨m₁, hmake, h₁, hgrows₁, hthere₁⟩ := @makePairs_spec nodes (id :: todo) pairs [] m h hpairs
      fun _ hp => absurd hp List.not_mem_nil
    have hparts : ∀ i ∈ parts nodes id, (m₁.object? i).isSome := by
      rw [htarget.2]
      intro i hi
      obtain ⟨p, hp, hi⟩ := List.mem_flatMap.mp hi
      rcases List.mem_cons.mp hi with rfl | hi
      · exact (hthere₁ p hp).1
      · rw [List.mem_singleton.mp hi]
        exact (hthere₁ p hp).2
    obtain ⟨h₂, hgrows₂⟩ := h₁.put_target hparts
    have hentries : entries id m = .ok (gatherPairs (sameNodes nodes) pairs, m₁) := by
      have hmapping : m.isMapping id = true := by rw [isMapping, node_eq h hn]
      have hown : m.pairs id = pairs := by rw [Making.pairs, node_eq h hn]
      rw [entries, hmapping, if_pos rfl, flatten_eq h hn fun p hp => (hpairs p hp).1, ok_bind, hown,
        hmake]
      rfl
    refine ⟨_, ?_, h₂, hgrows₁.trans hgrows₂⟩
    rw [fill, node_eq h hn, htarget.1]
    simp only [hentries, ok_bind]
    rfl

end Worklist

/-! ## 5. Rounds -/

section Rounds

variable {nodes : Array Node}

theorem fillEach_spec : ∀ {ids : List NodeId} {m : Making}, Filling nodes ids m →
    ∃ m', fillEach ids m = .ok m' ∧ Filling nodes [] m' ∧ Advances m m'
  | [], m => fun h => ⟨m, rfl, h, .refl m⟩
  | id :: ids, m => fun h => by
      obtain ⟨m₁, hfill, h₁, hgrows₁⟩ := fill_spec h
      obtain ⟨m₂, hfills, h₂, hgrows₂⟩ := fillEach_spec h₁
      refine ⟨m₂, ?_, h₂, hgrows₁.trans hgrows₂⟩
      rw [fillEach, hfill, ok_bind, hfills]

/-- A new round works off what fell due in the last one. -/
theorem Filling.round {m : Making} (h : Filling nodes [] m) :
    Filling nodes m.due.reverse { m with due := [] } := by
  have hmem : ∀ i, i ∈ m.due.reverse ++ [] ↔ i ∈ [] ++ m.due := by simp
  exact ⟨h.same, h.size, h.spelled, fun i hi => h.waiting i ((hmem i).mp hi),
    fun i o ho hi => h.done i o ho fun hi' => hi ((hmem i).mpr hi')⟩

/-- **All rounds together empty the worklist**, if there are more of them than missing objects. -/
theorem fillAll_spec : ∀ {n : Nat} {m : Making}, Filling nodes [] m →
    missing m < n ∨ m.due = [] → ∃ m', fillAll n m = .ok m' ∧ Filling nodes [] m' ∧ m'.due = [] ∧
      ∀ i, (m.object? i).isSome → (m'.object? i).isSome
  | 0, m => fun h hn => ⟨m, rfl, h, hn.resolve_left (Nat.not_lt_zero _), fun _ hi => hi⟩
  | n + 1, m => fun h hn => by
      cases hdue : m.due with
      | nil =>
        refine ⟨m, ?_, h, hdue, fun _ hi => hi⟩
        rw [fillAll, hdue]
      | cons d ds =>
        obtain ⟨m₁, hfill, h₁, hgrows⟩ := fillEach_spec h.round
        have hmissing := hgrows.missing
        have hlt : missing m < n + 1 := hn.resolve_right (by rw [hdue]; exact List.cons_ne_nil d ds)
        have hsame : missing { m with due := [] } = missing m := rfl
        have hn₁ : missing m₁ < n ∨ m₁.due = [] := by
          cases hdue₁ : m₁.due with
          | nil => exact .inr rfl
          | cons e es =>
            rw [hsame, hdue₁] at hmissing
            simp only [List.length_cons, List.length_nil] at hmissing
            exact .inl (by omega)
        obtain ⟨m₂, hfills, h₂, hend, hthere⟩ := fillAll_spec h₁ hn₁
        refine ⟨m₂, ?_, h₂, hend, fun i hi => hthere i (hgrows.there i hi)⟩
        rw [hdue] at hfill
        rw [fillAll, hdue]
        simp only [hfill, ok_bind, hfills]

end Rounds

end Making

/-- The graph of spelled nodes has the object of every node that is reached from the root. -/
structure Pictures (nodes : Array Node) (g : Graph) (there : NodeId → Prop) : Prop where
  size : g.objects.size = nodes.size
  object : ∀ id, there id → g.object id = target nodes id
  closed : ∀ id, there id → ∀ i ∈ parts nodes id, there i

/-- **Nodes that spell a record have a document**, which holds what they ask for. -/
theorem document_spec {nodes : Array Node} {root : NodeId} (hroot : Spelled nodes root) :
    ∃ d there, Composed.document ⟨nodes, root⟩ = .ok d ∧ d.root = root ∧ there root ∧
      Pictures nodes d.graph there := by
  have hstart : Making.Filling nodes [] (.start nodes) := by
    refine ⟨rfl, Array.size_replicate, fun id h => ?_, fun id h => ?_, fun id o ho => ?_⟩
    · rw [Making.object?_start] at h
      cases h
    · exact absurd h List.not_mem_nil
    · rw [Making.object?_start] at ho
      cases ho
  obtain ⟨m₁, hmake, h₁, -, hthere₁⟩ := Making.make_spec hstart hroot
  have hmissing : Making.missing m₁ < nodes.size + 1 :=
    Nat.lt_succ_of_le (h₁.size ▸ Array.countP_le_size)
  obtain ⟨m₂, hfill, h₂, hdue, hthere₂⟩ := Making.fillAll_spec h₁ (.inl hmissing)
  refine ⟨⟨m₂.graph, root⟩, fun id => (m₂.object? id).isSome, ?_, rfl, hthere₂ root hthere₁, ?_,
    fun id hid => ?_, fun id hid => ?_⟩
  · rw [Composed.document]
    show (Making.make root (.start nodes) >>= _) = _
    rw [hmake, ok_bind, hfill]
    rfl
  · rw [Making.graph, Array.size_map, h₂.size]
  · obtain ⟨o, ho⟩ := Option.isSome_iff_exists.mp hid
    have hobject := (h₂.done id o ho (by rw [hdue]; exact List.not_mem_nil)).1
    rw [Making.object_graph ho, hobject]
  · obtain ⟨o, ho⟩ := Option.isSome_iff_exists.mp hid
    exact (h₂.done id o ho (by rw [hdue]; exact List.not_mem_nil)).2

end Conform.Markup
