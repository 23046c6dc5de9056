import Mathlib.Data.List.Induction
import Conform.Schema.Basic

/-!
# Keys of mappings

Two atoms are the same key if they have the same class, so being the same key is an equivalence.
A mapping that is built by inserting pairs never holds a key twice, and in such a mapping a key is
looked up without regard to the order of the pairs:

* `distinct_insertPair`: inserting a pair keeps the keys distinct;
* `keys_gatherPairs`, `lookupPair_gatherPairs`: of several pairs with the same key the first gives the
  key its form and its place, and the last gives it its value;
* `fieldOf?_eq_some_iff`: what is found under a key is what some pair holds under the same key.
-/

namespace Conform

/-! ## 1. The same key -/

namespace Atom

theorem sameKey_iff {a b : Atom} : a.sameKey b = true ↔ a.keyClass = b.keyClass := by
  simp [sameKey]

@[simp] theorem sameKey_refl (a : Atom) : a.sameKey a = true := sameKey_iff.mpr rfl

theorem sameKey_symm {a b : Atom} (h : a.sameKey b = true) : b.sameKey a = true :=
  sameKey_iff.mpr (sameKey_iff.mp h).symm

theorem sameKey_trans {a b c : Atom} (h : a.sameKey b = true) (h' : b.sameKey c = true) :
    a.sameKey c = true :=
  sameKey_iff.mpr ((sameKey_iff.mp h).trans (sameKey_iff.mp h'))

/-- Only a text is the same key as a text. -/
theorem sameKey_str {a : Atom} {t : Text} : a.sameKey (.str t) = true ↔ a = .str t := by
  constructor
  · intro h
    rw [sameKey_iff] at h
    cases a with
    | str u => simpa [keyClass] using h
    | float d => cases d <;> cases h
    | moment m =>
      simp only [keyClass] at h
      cases hm : m.instant? <;> rw [hm] at h <;> cases h
    | _ => cases h
  · rintro rfl
    exact sameKey_refl _

end Atom

/-! ## 2. Inserting pairs -/

section Pairs

variable {α β : Type} {same : α → α → Bool}

/-- No two keys of some pairs are the same. -/
def Distinct (same : α → α → Bool) (pairs : List (α × β)) : Prop :=
  pairs.Pairwise fun p q => same p.1 q.1 = false

/-- A key that is not there yet goes to the end. -/
theorem insertPair_of_fresh {k : α} {v : β} : ∀ {pairs : List (α × β)},
    (∀ p ∈ pairs, same p.1 k = false) → insertPair same k v pairs = pairs ++ [(k, v)]
  | [], _ => rfl
  | (k', v') :: rest, h => by
      have hk : same k' k = false := h (k', v') List.mem_cons_self
      have ih : insertPair same k v rest = rest ++ [(k, v)] :=
        insertPair_of_fresh fun p hp => h p (List.mem_cons_of_mem _ hp)
      simp [insertPair, hk, ih]

/-- Every pair of a mapping after an insertion has an old key or the new one. -/
theorem key_mem_insertPair {k : α} {v : β} {p : α × β} : ∀ {pairs : List (α × β)},
    p ∈ insertPair same k v pairs →
      (∃ q ∈ pairs, q.1 = p.1) ∨ (p = (k, v) ∧ ∀ q ∈ pairs, same q.1 k = false)
  | [], h => by
      rw [insertPair, List.mem_singleton] at h
      exact Or.inr ⟨h, by simp⟩
  | (k', v') :: rest, h => by
      by_cases hk : same k' k = true
      · rw [insertPair, if_pos hk, List.mem_cons] at h
        rcases h with rfl | h
        · exact Or.inl ⟨(k', v'), List.mem_cons_self, rfl⟩
        · exact Or.inl ⟨p, List.mem_cons_of_mem _ h, rfl⟩
      · rw [insertPair, if_neg hk, List.mem_cons] at h
        rcases h with rfl | h
        · exact Or.inl ⟨(k', v'), List.mem_cons_self, rfl⟩
        · rcases key_mem_insertPair h with ⟨q, hq, e⟩ | ⟨rfl, hf⟩
          · exact Or.inl ⟨q, List.mem_cons_of_mem _ hq, e⟩
          · refine Or.inr ⟨rfl, fun q hq => ?_⟩
            rcases List.mem_cons.mp hq with rfl | hq
            · simpa using hk
            · exact hf q hq

/-- Inserting a pair keeps the keys distinct. -/
theorem distinct_insertPair {k : α} {v : β} : ∀ {pairs : List (α × β)},
    Distinct same pairs → Distinct same (insertPair same k v pairs)
  | [], _ => by simp [insertPair, Distinct]
  | (k', v') :: rest, h => by
      obtain ⟨h₁, h₂⟩ := List.pairwise_cons.mp h
      by_cases hk : same k' k = true
      · rw [insertPair, if_pos hk]
        exact List.pairwise_cons.mpr ⟨h₁, h₂⟩
      · rw [insertPair, if_neg hk]
        refine List.pairwise_cons.mpr ⟨fun p hp => ?_, distinct_insertPair h₂⟩
        rcases key_mem_insertPair hp with ⟨q, hq, e⟩ | ⟨rfl, _⟩
        · rw [← e]
          exact h₁ q hq
        · simpa using hk

/-- Pairs with distinct keys make themselves. -/
theorem gatherPairs_of_distinct {pairs : List (α × β)} (h : Distinct same pairs) :
    gatherPairs same pairs = pairs := by
  have grow : ∀ (todo done : List (α × β)), Distinct same (done ++ todo) →
      todo.foldl (fun m p => insertPair same p.1 p.2 m) done = done ++ todo := by
    intro todo
    induction todo with
    | nil => simp
    | cons p todo ih =>
      intro done h
      have hp : ∀ q ∈ done, same q.1 p.1 = false := fun q hq =>
        (List.pairwise_append.mp h).2.2 q hq p List.mem_cons_self
      rw [List.foldl_cons, insertPair_of_fresh hp, ih (done ++ [p]) (by simpa using h)]
      simp
  simpa [gatherPairs] using grow pairs [] h

/-- Every key of the pairs that are made is one of those they are made of. -/
theorem key_mem_gatherPairs {pairs : List (α × β)} {p : α × β} (h : p ∈ gatherPairs same pairs) :
    ∃ q ∈ pairs, q.1 = p.1 := by
  have grow : ∀ (todo done : List (α × β)),
      p ∈ todo.foldl (fun m p => insertPair same p.1 p.2 m) done →
      ∃ q ∈ done ++ todo, q.1 = p.1 := by
    intro todo
    induction todo with
    | nil => exact fun done h => ⟨p, List.mem_append_left _ h, rfl⟩
    | cons x todo ih =>
      intro done h
      obtain ⟨q, hq, heq⟩ := ih _ h
      rcases List.mem_append.mp hq with hq | hq
      · rcases key_mem_insertPair hq with ⟨y, hy, heq'⟩ | ⟨rfl, -⟩
        · exact ⟨y, List.mem_append_left _ hy, heq'.trans heq⟩
        · exact ⟨x, List.mem_append_right _ List.mem_cons_self, heq⟩
      · exact ⟨q, List.mem_append_right _ (List.mem_cons_of_mem x hq), heq⟩
  exact grow pairs [] h

theorem insertPair_map {γ δ : Type} {same' : γ → γ → Bool} {f : α → γ} {g : β → δ}
    (h : ∀ a b, same' (f a) (f b) = same a b) (k : α) (v : β) : ∀ pairs : List (α × β),
    (insertPair same k v pairs).map (fun p => (f p.1, g p.2)) =
      insertPair same' (f k) (g v) (pairs.map fun p => (f p.1, g p.2))
  | [] => rfl
  | (k', v') :: rest => by
      rw [insertPair, List.map_cons, insertPair, h]
      split
      · rfl
      · rw [List.map_cons, insertPair_map h k v rest]

/-- Pairs can be gathered before their keys and values are looked at. -/
theorem gatherPairs_map {γ δ : Type} {same' : γ → γ → Bool} {f : α → γ} {g : β → δ}
    (h : ∀ a b, same' (f a) (f b) = same a b) (pairs : List (α × β)) :
    (gatherPairs same pairs).map (fun p => (f p.1, g p.2)) =
      gatherPairs same' (pairs.map fun p => (f p.1, g p.2)) := by
  have grow : ∀ todo done : List (α × β),
      (todo.foldl (fun m p => insertPair same p.1 p.2 m) done).map (fun p => (f p.1, g p.2)) =
        (todo.map fun p => (f p.1, g p.2)).foldl (fun m p => insertPair same' p.1 p.2 m)
          (done.map fun p => (f p.1, g p.2)) := by
    intro todo
    induction todo with
    | nil => exact fun _ => rfl
    | cons p todo ih =>
      intro done
      rw [List.foldl_cons, ih, insertPair_map h, List.map_cons, List.foldl_cons]
  exact grow pairs []

theorem length_insertPair_le (k : α) (v : β) : ∀ pairs : List (α × β),
    (insertPair same k v pairs).length ≤ pairs.length + 1 ∧
      ((insertPair same k v pairs).length = pairs.length + 1 →
        insertPair same k v pairs = pairs ++ [(k, v)])
  | [] => ⟨Nat.le_refl _, fun _ => rfl⟩
  | (k', v') :: rest => by
      obtain ⟨hle, heq⟩ := length_insertPair_le k v rest
      rw [insertPair]
      split
      · refine ⟨Nat.le_succ _, fun h => ?_⟩
        simp only [List.length_cons] at h
        omega
      · refine ⟨Nat.succ_le_succ hle, fun h => ?_⟩
        rw [heq (Nat.succ.inj h)]
        rfl

/-- Pairs that make as many pairs make themselves. -/
theorem gatherPairs_of_length {pairs : List (α × β)}
    (h : (gatherPairs same pairs).length = pairs.length) : gatherPairs same pairs = pairs := by
  have grow : ∀ (todo done : List (α × β)),
      (todo.foldl (fun m p => insertPair same p.1 p.2 m) done).length ≤ done.length + todo.length ∧
        ((todo.foldl (fun m p => insertPair same p.1 p.2 m) done).length =
          done.length + todo.length →
            todo.foldl (fun m p => insertPair same p.1 p.2 m) done = done ++ todo) := by
    intro todo
    induction todo with
    | nil => simp
    | cons p todo ih =>
      intro done
      obtain ⟨hle, heq⟩ := @length_insertPair_le α β same p.1 p.2 done
      obtain ⟨hle', heq'⟩ := ih (insertPair same p.1 p.2 done)
      rw [List.foldl_cons, List.length_cons]
      refine ⟨by omega, fun hlength => ?_⟩
      rw [heq' (by omega), heq (by omega), List.append_assoc]
      rfl
  have hlength := (grow pairs []).2
  simp only [List.length_nil, Nat.zero_add, List.nil_append] at hlength
  exact hlength h

/-- Inserting a pair adds its key at the end, unless a key that is the same is there. -/
theorem keys_insertPair (k : α) (v : β) : ∀ pairs : List (α × β),
    (insertPair same k v pairs).map (·.1) =
      if pairs.any fun p => same p.1 k then pairs.map (·.1) else pairs.map (·.1) ++ [k]
  | [] => rfl
  | (k', v') :: rest => by
      rw [insertPair, List.any_cons]
      by_cases hk : same k' k = true
      · rw [if_pos hk, hk]
        rfl
      · rw [if_neg hk, List.map_cons, keys_insertPair k v rest, Bool.eq_false_iff.mpr hk,
          Bool.false_or]
        split <;> rfl

/-- **Keys are ordered, and keep their form, by first occurrence.** -/
theorem keys_gatherPairs (pairs : List (α × β)) :
    (gatherPairs same pairs).map (·.1) = (pairs.map (·.1)).eraseDupsBy fun a b => same b a := by
  have grow : ∀ todo done : List (α × β),
      (todo.foldl (fun m p => insertPair same p.1 p.2 m) done).map (·.1) =
        List.eraseDupsBy.loop (fun a b => same b a) (todo.map (·.1)) (done.map (·.1)).reverse := by
    intro todo
    induction todo with
    | nil =>
      intro done
      rw [List.foldl_nil, List.map_nil, List.eraseDupsBy.loop, List.reverse_reverse]
    | cons p todo ih =>
      intro done
      have hany : ((done.map (·.1)).reverse.any fun b => same b p.1) =
          done.any fun q => same q.1 p.1 := by
        rw [List.any_reverse, List.any_map]
        rfl
      rw [List.foldl_cons, ih, keys_insertPair, List.map_cons, List.eraseDupsBy.loop, hany]
      cases done.any fun q => same q.1 p.1 with
      | true => rfl
      | false => simp
  exact grow pairs []

/-- Gathered pairs have distinct keys. -/
theorem distinct_gatherPairs (pairs : List (α × β)) : Distinct same (gatherPairs same pairs) := by
  have grow : ∀ todo done : List (α × β), Distinct same done →
      Distinct same (todo.foldl (fun m p => insertPair same p.1 p.2 m) done) := by
    intro todo
    induction todo with
    | nil => exact fun _ h => h
    | cons p todo ih => exact fun done h => ih _ (distinct_insertPair h)
  exact grow pairs [] (by simp [Distinct])

theorem insertPair_congr {same' : α → α → Bool} {k : α} {v : β} :
    ∀ {pairs : List (α × β)}, (∀ p ∈ pairs, same p.1 k = same' p.1 k) →
    insertPair same k v pairs = insertPair same' k v pairs
  | [], _ => rfl
  | (k', v') :: rest, h => by
      obtain ⟨hk, hrest⟩ := List.forall_mem_cons.mp h
      rw [insertPair, insertPair, hk, insertPair_congr hrest]

/-- A property picks one of two keys or none, unless they are the same: keys that are the same have
    it both or neither, and keys that have it both are the same. -/
def Picks (is : α → Bool) (same : α → α → Bool) (a b : α) : Prop :=
  (same a b = true → is a = is b) ∧ (is a = true → is b = true → same a b = true)

theorem lookupPair_cons (is : α → Bool) (k : α) (v : β) (pairs : List (α × β)) :
    lookupPair is ((k, v) :: pairs) = if is k then some v else lookupPair is pairs := by
  rw [lookupPair, List.find?_cons]
  cases is k <;> rfl

theorem lookupPair_append (is : α → Bool) (ps qs : List (α × β)) :
    lookupPair is (ps ++ qs) = (lookupPair is ps).or (lookupPair is qs) := by
  rw [lookupPair, List.find?_append, Option.map_or]
  rfl

/-- What is inserted under a key is found there, and nothing else is. -/
theorem lookupPair_insertPair {is : α → Bool} (k : α) (v : β) : ∀ {pairs : List (α × β)},
    (∀ p ∈ pairs, Picks is same p.1 k) →
      lookupPair is (insertPair same k v pairs) = if is k then some v else lookupPair is pairs
  | [], _ => lookupPair_cons is k v []
  | (k', v') :: rest, h => by
      obtain ⟨⟨hsame, hpick⟩, hrest⟩ := List.forall_mem_cons.mp h
      rw [insertPair]
      by_cases hk : same k' k = true
      · rw [if_pos hk, lookupPair_cons, lookupPair_cons, hsame hk]
        cases is k <;> rfl
      · rw [if_neg hk, lookupPair_cons, lookupPair_cons, lookupPair_insertPair k v hrest]
        cases hk' : is k with
        | false => rfl
        | true =>
          have his : is k' = false := Bool.eq_false_iff.mpr fun his => hk (hpick his hk')
          rw [his]
          rfl

/-- The last pair is inserted last. -/
theorem gatherPairs_concat (pairs : List (α × β)) (p : α × β) :
    gatherPairs same (pairs ++ [p]) = insertPair same p.1 p.2 (gatherPairs same pairs) := by
  rw [gatherPairs, List.foldl_append]
  rfl

/-- **The last pair with a key gives its value.** -/
theorem lookupPair_gatherPairs {is : α → Bool} {pairs : List (α × β)}
    (h : ∀ p ∈ pairs, ∀ q ∈ pairs, Picks is same p.1 q.1) :
    lookupPair is (gatherPairs same pairs) = lookupPair is pairs.reverse := by
  induction pairs using List.reverseRecOn with
  | nil => rfl
  | append_singleton pairs p ih =>
    have hkeys : ∀ q ∈ gatherPairs same pairs, Picks is same q.1 p.1 := by
      intro q hq
      obtain ⟨q', hq', heq⟩ := key_mem_gatherPairs hq
      rw [← heq]
      exact h q' (List.mem_append_left _ hq') p (by simp)
    rw [gatherPairs_concat, lookupPair_insertPair _ _ hkeys, List.reverse_append, List.reverse_singleton,
      ih fun q hq q' hq' => h q (List.mem_append_left _ hq) q' (List.mem_append_left _ hq')]
    exact (lookupPair_cons is p.1 p.2 pairs.reverse).symm

/-- Only the keys that are there are compared. -/
theorem gatherPairs_congr {same' : α → α → Bool} {pairs : List (α × β)}
    (h : ∀ p ∈ pairs, ∀ q ∈ pairs, same p.1 q.1 = same' p.1 q.1) :
    gatherPairs same pairs = gatherPairs same' pairs := by
  induction pairs using List.reverseRecOn with
  | nil => rfl
  | append_singleton pairs p ih =>
    rw [gatherPairs_concat, gatherPairs_concat,
      ← ih fun q hq q' hq' => h q (List.mem_append_left _ hq) q' (List.mem_append_left _ hq')]
    refine insertPair_congr fun q hq => ?_
    obtain ⟨q', hq', heq⟩ := key_mem_gatherPairs hq
    rw [← heq]
    exact h q' (List.mem_append_left _ hq') p (by simp)

end Pairs

/-! ## 3. Looking keys up -/

section Lookup

variable {α : Type} {record : List (Atom × α)} {key : Atom} {v : α}

/-- A key is not found exactly if no pair holds it. -/
theorem fieldOf?_eq_none_iff :
    fieldOf? record key = none ↔ ∀ p ∈ record, p.1.sameKey key = false := by
  simp [fieldOf?, lookupPair]

/-- What is found under a key is held by a pair with that key. -/
theorem mem_of_fieldOf? (h : fieldOf? record key = some v) :
    ∃ p ∈ record, p.1.sameKey key = true ∧ p.2 = v := by
  obtain ⟨p, hp, hv⟩ := Option.map_eq_some_iff.mp h
  have hk := List.find?_some hp
  exact ⟨p, List.mem_of_find?_eq_some hp, hk, hv⟩

/-- Where keys are distinct, a key names the value of the pair that holds it. -/
theorem fieldOf?_of_mem (h : Distinct Atom.sameKey record) {p : Atom × α} (hp : p ∈ record)
    (hk : p.1.sameKey key = true) : fieldOf? record key = some p.2 := by
  induction record with
  | nil => cases hp
  | cons q rest ih =>
    obtain ⟨h₁, h₂⟩ := List.pairwise_cons.mp h
    rcases List.mem_cons.mp hp with rfl | hp
    · simp [fieldOf?, lookupPair, hk]
    · have hq : q.1.sameKey key = false := by
        rw [Bool.eq_false_iff]
        intro hqk
        have := Atom.sameKey_trans hqk (Atom.sameKey_symm hk)
        rw [h₁ p hp] at this
        cases this
      have := ih h₂ hp
      simpa [fieldOf?, lookupPair, List.find?_cons, hq] using this

/-- Where keys are distinct, a key is found with a value exactly if some pair holds both. -/
theorem fieldOf?_eq_some_iff (h : Distinct Atom.sameKey record) :
    fieldOf? record key = some v ↔ ∃ p ∈ record, p.1.sameKey key = true ∧ p.2 = v := by
  refine ⟨mem_of_fieldOf?, ?_⟩
  rintro ⟨p, hp, hk, rfl⟩
  exact fieldOf?_of_mem h hp hk

end Lookup

end Conform
