import Conform.Markup.Load
import Conform.Proofs.Failing
import Conform.Proofs.Keys

/-!
# Keys of loaded mappings

In the graph of a loaded document every key of a mapping is an atom, and no two keys of one mapping
are the same (`load_keyed`). The invariant is carried through the rounds in which collections are
filled: an object that has become an atom stays the same atom, and a collection that is still to be
filled never becomes one. So keys that were compared when they were inserted compare the same way
ever after.
-/

namespace Conform

/-- Every mapping of the graph has atoms as keys, no two of them the same. -/
def Graph.Keyed (g : Graph) : Prop :=
  ∀ r entries, g.object r = .map entries →
    (∀ e ∈ entries, ∃ a, g.atom? e.1 = some a) ∧
      entries.Pairwise fun p q => ∀ a b, g.atom? p.1 = some a → g.atom? q.1 = some b →
        a.sameKey b = false

namespace Markup.Making

/-! ## 1. Atoms and collections -/

/-- What is known of the object under a number: nothing, that it is a collection, or the atom. -/
def holds? (m : Making) (id : Ref) : Option (Option Atom) :=
  (m.object? id).map fun
    | .atom a => some a
    | _ => none

theorem atom?_eq_some_iff {m : Making} {id : NodeId} {a : Atom} :
    m.atom? id = some a ↔ m.holds? id = some (some a) := by
  unfold atom? holds?
  cases m.object? id with
  | none => simp
  | some o => cases o <;> simp

/-- Every object that was there is there, atoms as the same atoms. -/
def Grows (m m' : Making) : Prop :=
  ∀ id x, m.holds? id = some x → m'.holds? id = some x

theorem Grows.refl (m : Making) : m.Grows m := fun _ _ h => h

theorem Grows.trans {m m' m'' : Making} (h : m.Grows m') (h' : m'.Grows m'') : m.Grows m'' :=
  fun id x hx => h' id x (h id x hx)

theorem Grows.atom? {m m' : Making} (h : m.Grows m') {id : NodeId} {a : Atom}
    (ha : m.atom? id = some a) : m'.atom? id = some a :=
  atom?_eq_some_iff.mpr (h id _ (atom?_eq_some_iff.mp ha))

/-- Are the keys of some entries atoms, no two of them the same? -/
def KeysApart (m : Making) (entries : List (Ref × Ref)) : Prop :=
  (∀ e ∈ entries, ∃ a, m.atom? e.1 = some a) ∧ Distinct m.sameKey entries

theorem KeysApart.nil (m : Making) : m.KeysApart [] := ⟨by simp, by simp [Distinct]⟩

theorem sameKey_of_atoms {m : Making} {i j : NodeId} {a b : Atom} (ha : m.atom? i = some a)
    (hb : m.atom? j = some b) : m.sameKey i j = a.sameKey b := by
  simp [sameKey, ha, hb]

theorem KeysApart.grow {m m' : Making} (h : m.Grows m') {entries : List (Ref × Ref)}
    (hk : m.KeysApart entries) : m'.KeysApart entries := by
  refine ⟨fun e he => ?_, ?_⟩
  · obtain ⟨a, ha⟩ := hk.1 e he
    exact ⟨a, h.atom? ha⟩
  · refine hk.2.imp_of_mem fun {p q} hp hq hpq => ?_
    obtain ⟨a, ha⟩ := hk.1 p hp
    obtain ⟨b, hb⟩ := hk.1 q hq
    rw [sameKey_of_atoms ha hb] at hpq
    rw [sameKey_of_atoms (h.atom? ha) (h.atom? hb), hpq]

/-! ## 2. Placing an object -/

theorem object?_put {m : Making} {id : Ref} {o : Object} {j : Ref} :
    (m.put id o).object? j =
      if id = j ∧ id < m.objects.size then some o else m.object? j := by
  unfold object? put
  by_cases hj : id = j
  · subst hj
    by_cases hs : id < m.objects.size
    · simp [hs]
    · simp [hs]
  · simp [hj]

theorem holds?_put_of_ne {m : Making} {id j : Ref} {o : Object} (h : id ≠ j) :
    (m.put id o).holds? j = m.holds? j := by
  simp [holds?, object?_put, h]

theorem lt_size_of_object? {m : Making} {id : Ref} {o : Object} (h : m.object? id = some o) :
    id < m.objects.size := by
  rcases Nat.lt_or_ge id m.objects.size with hlt | hge
  · exact hlt
  · rw [object?, Array.getElem?_eq_none hge] at h
    cases h

/-- Putting an object where there is none only adds one. -/
theorem grows_put_new {m : Making} {id : Ref} {o : Object} (h : m.object? id = none) :
    m.Grows (m.put id o) := by
  intro j x hx
  by_cases hj : id = j
  · subst hj
    simp [holds?, h] at hx
  · rw [holds?_put_of_ne hj]
    exact hx

/-- Filling a collection leaves it one. -/
theorem grows_put_filled {m : Making} {id : Ref} {o : Object} (h : m.holds? id = some none)
    (ho : ∀ a, o ≠ .atom a) : m.Grows (m.put id o) := by
  intro j x hx
  by_cases hj : id = j
  · subst hj
    obtain ⟨o', ho', -⟩ := Option.map_eq_some_iff.mp h
    rw [h] at hx
    cases hx
    simp only [holds?, object?_put, lt_size_of_object? ho', and_self, if_true, Option.map_some]
  · rw [holds?_put_of_ne hj]
    exact hx

/-! ## 3. The invariant -/

/-- What every step keeps: there is a place for every node, and the mappings that are there have
    atoms as keys, no two of them the same. -/
structure Keyed (m : Making) : Prop where
  places : m.nodes.size ≤ m.objects.size
  due : ∀ id ∈ m.due, m.holds? id = some none
  apart : ∀ id entries, m.object? id = some (.map entries) → m.KeysApart entries

/-- One or several steps: they keep the invariant and let the objects grow. -/
structure Keeps (m m' : Making) : Prop where
  grows : m.Grows m'
  keyed : m'.Keyed

theorem Keeps.trans {m m' m'' : Making} (h : m.Keeps m') (h' : m'.Keeps m'') : m.Keeps m'' :=
  ⟨h.grows.trans h'.grows, h'.keyed⟩

theorem Keyed.keeps {m : Making} (h : m.Keyed) : m.Keeps m := ⟨Grows.refl m, h⟩

/-- An object that is no mapping can be put anywhere as long as the objects grow. -/
theorem Keyed.put {m : Making} (h : m.Keyed) {id : Ref} {o : Object} (hg : m.Grows (m.put id o))
    (ho : ∀ entries, o = .map entries → m.KeysApart entries) : m.Keeps (m.put id o) := by
  refine ⟨hg, ?_, fun j hj => hg j _ (h.due j hj), fun j entries hj => ?_⟩
  · simpa [Making.put] using h.places
  · refine KeysApart.grow hg ?_
    rw [object?_put] at hj
    split at hj
    · exact ho entries (Option.some.inj hj)
    · exact h.apart j entries hj

/-! ## 4. Merging touches no object -/

/-- Nothing but the contents and tags of nodes has changed. -/
structure OnlyNodes (m m' : Making) : Prop where
  objects : m'.objects = m.objects
  due : m'.due = m.due
  size : m'.nodes.size = m.nodes.size

theorem OnlyNodes.refl (m : Making) : m.OnlyNodes m := ⟨rfl, rfl, rfl⟩

theorem OnlyNodes.trans {m m' m'' : Making} (h : m.OnlyNodes m') (h' : m'.OnlyNodes m'') :
    m.OnlyNodes m'' :=
  ⟨h'.objects.trans h.objects, h'.due.trans h.due, h'.size.trans h.size⟩

theorem OnlyNodes.object? {m m' : Making} (h : m.OnlyNodes m') : m'.object? = m.object? := by
  funext id
  rw [Making.object?, Making.object?, h.objects]

theorem OnlyNodes.keeps {m m' : Making} (h : m.OnlyNodes m') (hm : m.Keyed) : m.Keeps m' := by
  have hh : m'.holds? = m.holds? := by
    funext id
    rw [holds?, holds?, h.object?]
  have hg : m.Grows m' := fun id x hx => by rw [hh]; exact hx
  refine ⟨hg, ?_, fun id hid => ?_, fun id entries hid => ?_⟩
  · rw [h.size, h.objects]
    exact hm.places
  · rw [hh]
    exact hm.due id (h.due ▸ hid)
  · rw [h.object?] at hid
    exact (hm.apart id entries hid).grow hg

theorem onlyNodes_setPairs (m : Making) (id : NodeId) (ps : List (NodeId × NodeId)) :
    m.OnlyNodes (m.setPairs id ps) :=
  ⟨rfl, rfl, by simp [setPairs]⟩

theorem onlyNodes_plainKeys (m : Making) (ps : List (NodeId × NodeId)) :
    m.OnlyNodes (m.plainKeys ps) := by
  refine ⟨rfl, rfl, ?_⟩
  have size : ∀ ns : Array Node, (ps.foldl (fun ns p =>
      ns.modify p.1 fun n => if n.tag = .value then { n with tag := .str } else n) ns).size
        = ns.size := by
    induction ps with
    | nil => intro ns; rfl
    | cons p ps ih => intro ns; rw [List.foldl_cons, ih]; simp
  exact size m.nodes

theorem onlyNodes_settlePairs (m : Making) (merged : List (NodeId × NodeId)) (id : NodeId) :
    m.OnlyNodes (m.settlePairs merged id) :=
  (onlyNodes_plainKeys m _).trans (onlyNodes_setPairs _ _ _)

theorem onlyNodes_flattenEach {flatten : NodeId → Making → Except Fault Making}
    (hf : ∀ id m m', flatten id m = .ok m' → m.OnlyNodes m') :
    ∀ (ids : List NodeId) (merged : List (NodeId × NodeId)) (m : Making) r,
      flattenEach flatten merged m ids = .ok r → m.OnlyNodes r.2
  | [], _, m, _, h => by
      cases h
      exact OnlyNodes.refl m
  | id :: ids, merged, m, r, h => by
      unfold flattenEach at h
      split at h
      · cases h
      · obtain ⟨m₁, h₁, h₂⟩ := bind_eq_ok.mp h
        exact (hf id m m₁ h₁).trans (onlyNodes_flattenEach hf ids _ m₁ r h₂)

theorem onlyNodes_flattenFrom : ∀ (n : Nat) (merged : List (NodeId × NodeId)) (id : NodeId)
    (m m' : Making), flattenFrom n merged id m = .ok m' → m.OnlyNodes m'
  | 0, merged, id, m, m', h => by
      cases h
      exact onlyNodes_settlePairs m merged id
  | n + 1, merged, id, m, m', h => by
      unfold flattenFrom at h
      split at h
      · cases h
        exact onlyNodes_settlePairs m merged id
      · rename_i source rest _
        have rest_ok := onlyNodes_setPairs m id rest
        dsimp only at h
        split at h
        · obtain ⟨m₁, h₁, h₂⟩ := bind_eq_ok.mp h
          exact (rest_ok.trans (onlyNodes_flattenFrom n [] source _ m₁ h₁)).trans
            (onlyNodes_flattenFrom n _ id m₁ m' h₂)
        · obtain ⟨⟨found, m₁⟩, h₁, h₂⟩ := bind_eq_ok.mp h
          have each := onlyNodes_flattenEach
            (fun id m m' => onlyNodes_flattenFrom n [] id m m') _ _ _ _ h₁
          exact (rest_ok.trans each).trans (onlyNodes_flattenFrom n _ id m₁ m' h₂)
        · cases h

/-! ## 5. Making and filling -/

theorem node_of_size_le {m : Making} {id : NodeId} (h : m.nodes.size ≤ id) : m.node id = default := by
  simp [node, Array.getElem?_eq_none h]

/-- A node that asks for a collection has a place. -/
theorem Keyed.lt_size_of_emptyOf? {id : NodeId} {m : Making} (hm : m.Keyed) {o : Object}
    (ho : emptyOf? (m.node id).tag = some o) : id < m.objects.size := by
  rcases Nat.lt_or_ge id m.objects.size with hlt | hge
  · exact hlt
  · rw [node_of_size_le (Nat.le_trans hm.places hge)] at ho
    cases ho

/-- **What making an object does**: nothing, if it is there; else a collection falls due, or an atom
    is put in its place, which is the value of a text. -/
theorem make_eq_ok {id : NodeId} {m m' : Making} (h : make id m = .ok m') :
    m' = m ∨
      (m.object? id = none ∧ ∃ o, emptyOf? (m.node id).tag = some o ∧
        m' = { m.put id o with due := id :: m.due }) ∨
      m.object? id = none ∧ ∃ tag t a, Scalar.valueOf? (.computed id) tag t = some (.ok a) ∧
        m' = m.put id (.atom a) := by
  unfold make at h
  split at h
  · cases h
    exact .inl rfl
  · rename_i hnew
    have hnone : m.object? id = none := by simpa using hnew
    dsimp only at h
    split at h
    · rename_i o ho
      cases h
      exact .inr (.inl ⟨hnone, o, ho, rfl⟩)
    · split at h
      · cases h
      · cases h
      · cases h
      · obtain ⟨t, -, h₂⟩ := bind_eq_ok.mp h
        split at h₂
        · cases h₂
        · split at h₂
          · rename_i hvalue
            obtain ⟨a, rfl, h₃⟩ := bind_eq_ok.mp h₂
            cases h₃
            exact .inr (.inr ⟨hnone, _, t, a, hvalue, rfl⟩)
          · cases h₂

/-- Making an object keeps the invariant. -/
theorem keeps_make {id : NodeId} {m m' : Making} (hm : m.Keyed) (h : make id m = .ok m') :
    m.Keeps m' := by
  rcases make_eq_ok h with rfl | ⟨hnone, o, ho, rfl⟩ | ⟨hnone, -, -, a, -, rfl⟩
  · exact hm.keeps
  · have hmap : ∀ entries, o = .map entries → m.KeysApart entries := by
      rintro entries rfl
      unfold emptyOf? at ho
      split at ho <;> cases ho
      exact KeysApart.nil m
    have hlt := hm.lt_size_of_emptyOf? ho
    obtain ⟨hg, hk⟩ := hm.put (grows_put_new hnone) hmap
    refine ⟨hg, hk.places, fun j hj => ?_, hk.apart⟩
    rcases List.mem_cons.mp hj with rfl | hj
    · have hc : ∀ a, o ≠ .atom a := by
        rintro a rfl
        unfold emptyOf? at ho
        split at ho <;> cases ho
      show (m.put j o).holds? j = some none
      simp only [holds?, object?_put, hlt, and_self, if_true, Option.map_some]
    · exact hk.due j hj
  · exact hm.put (grows_put_new hnone) (by rintro entries ⟨⟩)

theorem keeps_makeEach : ∀ (ids : List NodeId) (m m' : Making), m.Keyed →
    makeEach ids m = .ok m' → m.Keeps m'
  | [], m, _, hm, h => by
      cases h
      exact hm.keeps
  | id :: ids, m, m', hm, h => by
      obtain ⟨m₁, h₁, h₂⟩ := bind_eq_ok.mp h
      have k := keeps_make hm h₁
      exact k.trans (keeps_makeEach ids m₁ m' k.keyed h₂)

/-- Inserting a pair whose key is an atom keeps the keys apart. -/
theorem KeysApart.insert {m : Making} {entries : List (Ref × Ref)} (h : m.KeysApart entries)
    {k v : Ref} {a : Atom} (ha : m.atom? k = some a) :
    m.KeysApart (insertPair m.sameKey k v entries) := by
  refine ⟨fun e he => ?_, distinct_insertPair h.2⟩
  rcases key_mem_insertPair he with ⟨q, hq, e'⟩ | ⟨rfl, -⟩
  · rw [← e']
    exact h.1 q hq
  · exact ⟨a, ha⟩

theorem keeps_makePairs : ∀ (ps : List (NodeId × NodeId)) (entries : List (Ref × Ref))
    (m : Making) r, m.Keyed → m.KeysApart entries → makePairs entries ps m = .ok r →
      m.Keeps r.2 ∧ r.2.KeysApart r.1
  | [], entries, m, _, hm, he, h => by
      cases h
      exact ⟨hm.keeps, he⟩
  | (k, v) :: ps, entries, m, r, hm, he, h => by
      obtain ⟨m₁, h₁, h₂⟩ := bind_eq_ok.mp h
      have k₁ := keeps_make hm h₁
      split at h₂
      · cases h₂
      · rename_i hk
        obtain ⟨a, ha⟩ := Option.ne_none_iff_exists'.mp (by simpa using hk)
        obtain ⟨m₂, h₃, h₄⟩ := bind_eq_ok.mp h₂
        have k₂ := keeps_make k₁.keyed h₃
        have apart := (he.grow (k₁.grows.trans k₂.grows)).insert (v := v) (k₂.grows.atom? ha)
        obtain ⟨k₃, hr⟩ := keeps_makePairs ps _ m₂ r k₂.keyed apart h₄
        exact ⟨(k₁.trans k₂).trans k₃, hr⟩

theorem keeps_append {m : Making} (hm : m.Keyed) (items : List Ref) :
    m.Keeps (m.append (.tuple items)).2 := by
  have old : ∀ j o, m.object? j = some o → (m.append (.tuple items)).2.object? j = some o := by
    intro j o hj
    have hlt := lt_size_of_object? hj
    simp only [object?, append, Array.getElem?_push, Nat.ne_of_lt hlt, if_false] at hj ⊢
    exact hj
  have hg : m.Grows (m.append (.tuple items)).2 := by
    intro j x hx
    obtain ⟨o, ho, rfl⟩ := Option.map_eq_some_iff.mp hx
    simp [holds?, old j o ho]
  refine ⟨hg, ?_, fun j hj => hg j _ (hm.due j hj), fun j entries hj => ?_⟩
  · have := hm.places
    simp only [append, Array.size_push]
    omega
  · have hj' : m.object? j = some (.map entries) := by
      simp only [object?, append, Array.getElem?_push] at hj ⊢
      split at hj
      · cases hj
      · exact hj
    exact (hm.apart j entries hj').grow hg

theorem keeps_makeTuples : ∀ (ids : List NodeId) (tuples : List Ref) (m : Making) r, m.Keyed →
    makeTuples tuples ids m = .ok r → m.Keeps r.2
  | [], _, m, _, hm, h => by
      cases h
      exact hm.keeps
  | id :: ids, tuples, m, r, hm, h => by
      unfold makeTuples at h
      split at h
      · rename_i k v _
        obtain ⟨m₁, h₁, h₂⟩ := bind_eq_ok.mp h
        obtain ⟨m₂, h₃, h₄⟩ := bind_eq_ok.mp h₂
        have k₁ := keeps_make hm h₁
        have k₂ := keeps_make k₁.keyed h₃
        have k₃ := keeps_append k₂.keyed [k, v]
        exact ((k₁.trans k₂).trans k₃).trans (keeps_makeTuples ids _ _ r k₃.keyed h₄)
      · cases h

theorem keeps_entries {id : NodeId} {m : Making} {r : List (Ref × Ref) × Making} (hm : m.Keyed)
    (h : entries id m = .ok r) : m.Keeps r.2 ∧ r.2.KeysApart r.1 := by
  unfold entries at h
  split at h
  · obtain ⟨m₁, h₁, h₂⟩ := bind_eq_ok.mp h
    have k₁ := (onlyNodes_flattenFrom _ _ _ _ _ h₁).keeps hm
    obtain ⟨k₂, hr⟩ := keeps_makePairs _ [] m₁ r k₁.keyed (KeysApart.nil m₁) h₂
    exact ⟨k₁.trans k₂, hr⟩
  · cases h

/-- Filling a collection keeps the invariant. -/
theorem keeps_fill {id : NodeId} {m m' : Making} (hm : m.Keyed) (hid : m.holds? id = some none)
    (h : fill id m = .ok m') : m.Keeps m' := by
  unfold fill at h
  dsimp only at h
  split at h
  · obtain ⟨⟨es, m₁⟩, h₁, h₂⟩ := bind_eq_ok.mp h
    cases h₂
    obtain ⟨k₁, hes⟩ := keeps_entries hm h₁
    have hg := grows_put_filled (o := .map es) (k₁.grows id _ hid) (by rintro a ⟨⟩)
    exact k₁.trans (k₁.keyed.put hg (by rintro entries ⟨⟩; exact hes))
  · obtain ⟨⟨es, m₁⟩, h₁, h₂⟩ := bind_eq_ok.mp h
    cases h₂
    obtain ⟨k₁, -⟩ := keeps_entries hm h₁
    have hg := grows_put_filled (o := .set (es.map (·.1))) (k₁.grows id _ hid) (by rintro a ⟨⟩)
    exact k₁.trans (k₁.keyed.put hg (by rintro entries ⟨⟩))
  · split at h
    · rename_i items _
      obtain ⟨m₁, h₁, h₂⟩ := bind_eq_ok.mp h
      cases h₂
      have k₁ := keeps_makeEach items m m₁ hm h₁
      have hg := grows_put_filled (o := .list items) (k₁.grows id _ hid) (by rintro a ⟨⟩)
      exact k₁.trans (k₁.keyed.put hg (by rintro entries ⟨⟩))
    · cases h
  · split at h
    · rename_i items _
      obtain ⟨⟨tuples, m₁⟩, h₁, h₂⟩ := bind_eq_ok.mp h
      cases h₂
      have k₁ := keeps_makeTuples items [] m _ hm h₁
      have hg := grows_put_filled (o := .list tuples) (k₁.grows id _ hid) (by rintro a ⟨⟩)
      exact k₁.trans (k₁.keyed.put hg (by rintro entries ⟨⟩))
    · cases h

theorem keeps_fillEach : ∀ (ids : List NodeId) (m m' : Making), m.Keyed →
    (∀ id ∈ ids, m.holds? id = some none) → fillEach ids m = .ok m' → m.Keeps m'
  | [], m, _, hm, _, h => by
      cases h
      exact hm.keeps
  | id :: ids, m, m', hm, hids, h => by
      obtain ⟨m₁, h₁, h₂⟩ := bind_eq_ok.mp h
      have k := keeps_fill hm (hids id List.mem_cons_self) h₁
      refine k.trans (keeps_fillEach ids m₁ m' k.keyed (fun j hj => ?_) h₂)
      exact k.grows j _ (hids j (List.mem_cons_of_mem _ hj))

theorem keeps_fillAll : ∀ (n : Nat) (m m' : Making), m.Keyed → fillAll n m = .ok m' → m.Keeps m'
  | 0, m, _, hm, h => by
      cases h
      exact hm.keeps
  | n + 1, m, m', hm, h => by
      unfold fillAll at h
      split at h
      · cases h
        exact hm.keeps
      · obtain ⟨m₁, h₁, h₂⟩ := bind_eq_ok.mp h
        have start : m.Keeps { m with due := [] } :=
          ⟨Grows.refl m, hm.places, by simp, fun id entries hid => hm.apart id entries hid⟩
        have k := keeps_fillEach _ _ m₁ start.keyed
          (fun id hid => hm.due id (by simpa using hid)) h₁
        exact (start.trans k).trans (keeps_fillAll n m₁ m' k.keyed h₂)

/-! ## 6. The first state and the last -/

/-- The state in which nothing has been made. -/
def start (nodes : Array Node) : Making :=
  ⟨nodes, Array.replicate nodes.size none, []⟩

theorem object?_start (nodes : Array Node) (id : Ref) : (start nodes).object? id = none := by
  simp only [object?, start, Array.getElem?_replicate]
  split <;> rfl

theorem keyed_start (nodes : Array Node) : (start nodes).Keyed := by
  refine ⟨Nat.le_of_eq Array.size_replicate.symm, by simp [start], fun id entries hid => ?_⟩
  rw [object?_start] at hid
  cases hid

/-- The graph of the objects made so far. -/
def graph (m : Making) : Graph :=
  ⟨m.objects.map fun o => o.getD (.atom .null)⟩

section Graph

variable {m : Making}

theorem object_graph {r : Ref} {o : Object} (h : m.object? r = some o) : m.graph.object r = o := by
  rw [graph, Graph.object, Array.getElem?_map]
  rw [object?] at h
  cases hx : m.objects[r]? with
  | none =>
    rw [hx] at h
    cases h
  | some x =>
    rw [hx] at h
    cases x with
    | none => cases h
    | some o' =>
      cases h
      rfl

/-- Null stands for an object that is not there. -/
theorem object_graph_of_none {r : Ref} (h : m.object? r = none) :
    m.graph.object r = .atom .null := by
  rw [graph, Graph.object, Array.getElem?_map]
  rw [object?] at h
  cases hx : m.objects[r]? with
  | none => rfl
  | some x =>
    rw [hx] at h
    cases x with
    | none => rfl
    | some o => cases h

/-- Only null stands for an object that is not there. -/
theorem object?_of_map {r : Ref} {entries : List (Ref × Ref)}
    (h : m.graph.object r = .map entries) : m.object? r = some (.map entries) := by
  cases ho : m.object? r with
  | some o =>
    rw [object_graph ho] at h
    rw [h]
  | none =>
    rw [object_graph_of_none ho] at h
    cases h

theorem atom?_graph {r : Ref} {a : Atom} (h : m.atom? r = some a) : m.graph.atom? r = some a := by
  unfold atom? at h
  split at h
  · rename_i b hb
    rw [Graph.atom?, object_graph hb]
    exact h
  · cases h

end Graph

end Markup.Making

/-! ## 7. Documents -/

namespace Markup

/-- A document is made in rounds, from nothing. -/
theorem document_eq_ok {c : Composed} {d : Document} (h : c.document = .ok d) :
    ∃ m₀ m, Making.make c.root (.start c.nodes) = .ok m₀ ∧
      Making.fillAll (c.nodes.size + 1) m₀ = .ok m ∧ d = ⟨m.graph, c.root⟩ := by
  obtain ⟨m₀, h₀, h⟩ := bind_eq_ok.mp h
  obtain ⟨m, h₁, h⟩ := bind_eq_ok.mp h
  exact ⟨m₀, m, h₀, h₁, (pure_eq_ok.mp h).symm⟩

/-- The graph of a document has atoms as keys, no two of one mapping the same. -/
theorem document_keyed {c : Composed} {d : Document} (h : c.document = .ok d) : d.graph.Keyed := by
  obtain ⟨m₀, m, h₀, h₁, rfl⟩ := document_eq_ok h
  have k₀ := Making.keeps_make (Making.keyed_start c.nodes) h₀
  have k := Making.keeps_fillAll _ _ m k₀.keyed h₁
  intro r entries hr
  obtain ⟨hatoms, hdist⟩ := k.keyed.apart r entries (Making.object?_of_map hr)
  refine ⟨fun e he => ?_, hdist.imp_of_mem fun {p q} hp hq hpq a b ha hb => ?_⟩
  · obtain ⟨a, ha⟩ := hatoms e he
    exact ⟨a, Making.atom?_graph ha⟩
  · obtain ⟨a', ha'⟩ := hatoms p hp
    obtain ⟨b', hb'⟩ := hatoms q hq
    rw [Making.sameKey_of_atoms ha' hb'] at hpq
    have ea : a' = a := Option.some.inj ((Making.atom?_graph ha').symm.trans ha)
    have eb : b' = b := Option.some.inj ((Making.atom?_graph hb').symm.trans hb)
    rw [← ea, ← eb]
    exact hpq

/-- The nodes of a text. A text that is no document fails. -/
def composed (text : List Char) : Except Fault (Option Composed) :=
  if isSource text then Composition.compose (tokensOf text).tokens (tokensOf text).fault
  else .error .malformed

/-- Loading makes the objects of the nodes, if there are any. -/
theorem load_eq (text : List Char) : load text = do
    match ← composed text with
    | none => pure none
    | some c => return some (← c.document) := by
  unfold load composed
  cases isSource text <;> rfl

/-- A document that is loaded is made of the nodes of its text. -/
theorem load_eq_ok {text : List Char} {d : Document} (h : load text = .ok (some d)) :
    ∃ c, composed text = .ok (some c) ∧ c.document = .ok d := by
  rw [load_eq] at h
  obtain ⟨nodes, hnodes, h⟩ := bind_eq_ok.mp h
  cases nodes with
  | none => cases h
  | some c =>
    obtain ⟨d', hd, h⟩ := bind_eq_ok.mp h
    cases h
    exact ⟨c, hnodes, hd⟩

/-- The mappings of a loaded document have atoms as keys, no two of one mapping the same. -/
theorem load_keyed {text : List Char} {d : Document} (h : load text = .ok (some d)) :
    d.graph.Keyed := by
  obtain ⟨c, -, hd⟩ := load_eq_ok h
  exact document_keyed hd

end Markup

end Conform
