import Conform.Markup.Print
import Conform.Proofs.Markup.Keyed
import Conform.Proofs.Number.Range

/-!
# Atoms of loaded documents

Every atom in the graph of a loaded document is the value of a text under some tag (`load_denoted`);
so whatever is known of the values of texts is known of the keys and values of every record. In
particular, their doubles are in range, and none of them is a not-a-number that a schema has kept
(`load_ofDocument`).
-/

namespace Conform

/-- A double as a document can hold it. -/
structure Double.OfDocument (d : Double) : Prop where
  bounded : d.Bounded
  fresh : ∀ n, d ≠ .nan (.kept n)

/-- An atom as a document can hold it. -/
def Atom.OfDocument (a : Atom) : Prop :=
  ∀ d, a = .float d → d.OfDocument

namespace Markup

/-! ## 1. Values of texts -/

namespace Scalar

/-- An atom is the value of some text under some tag, in some place of a document. -/
def IsValue (a : Atom) : Prop :=
  ∃ number tag text, valueOf? (.computed number) tag text = some (.ok a)

theorem isValue_null : IsValue .null := ⟨0, .null, [], rfl⟩

/-- What is read as a double is one that a document can hold. -/
theorem exists_ofDocument_of_floatOf {number : Nat} {text : Text} {a : Atom}
    (h : floatOf (.computed number) text = .ok a) : ∃ d, a = .float d ∧ d.OfDocument := by
  -- a computed number, with its sign and its origin
  have settled : ∀ {negative : Bool} {d : Double}, d.Bounded →
      ((if negative then d.neg else d).withOrigin (.computed number)).OfDocument := by
    intro negative d hd
    constructor
    · refine Double.bounded_withOrigin _ ?_
      split
      · exact Double.bounded_neg hd
      · exact hd
    · intro n hn
      generalize (if negative = true then d.neg else d) = e at hn
      cases e <;> cases hn
  unfold floatOf at h
  split at h
  · cases h
  · dsimp only at h
    split at h
    · cases h
    · split at h
      · cases h
        exact ⟨_, rfl, trivial, fun n hn => by cases hn⟩
      · split at h
        · cases h
          exact ⟨_, rfl, trivial, fun n hn => by cases hn⟩
        · split at h
          · split at h
            · cases h
            · split at h
              · cases h
              · rename_i hsum
                cases h
                exact ⟨_, rfl, settled
                  (Double.bounded_sumSexagesimal? (Double.bounded_zero false) hsum)⟩
          · split at h
            · cases h
            · rename_i hnumeral
              cases h
              exact ⟨_, rfl, settled (Double.bounded_numeral? hnumeral)⟩

theorem exists_int_of_signed {negative : Bool} {i : Option Int} {a : Atom}
    (h : signed negative i = .ok a) : ∃ n, a = .int n := by
  cases i with
  | none => cases h
  | some i =>
    cases h
    exact ⟨_, rfl⟩

theorem exists_int_of_intOf {text : Text} {a : Atom} (h : intOf text = .ok a) :
    ∃ n, a = .int n := by
  unfold intOf at h
  split at h
  · cases h
  · dsimp only at h
    split at h
    · cases h
    · cases h
      exact ⟨0, rfl⟩
    · exact exists_int_of_signed h
    · exact exists_int_of_signed h
    · exact exists_int_of_signed h
    · split at h <;> exact exists_int_of_signed h

theorem tagOfAtom_of_timeOf? {t : Pattern.TimeParts} {a : Atom} (h : timeOf? t = some a) :
    tagOfAtom a = .timestamp := by
  unfold timeOf? at h
  split at h
  · obtain ⟨day, -, rfl⟩ := Option.map_eq_some_iff.mp h
    rfl
  · dsimp only at h
    split at h
    · simp only [Option.bind_eq_bind, Option.bind_some, Option.bind_eq_some_iff,
        Option.some.injEq] at h
      obtain ⟨_, _, _, _, rfl⟩ := h
      rfl
    · simp only [Option.bind_eq_bind, Option.bind_eq_some_iff, Option.some.injEq] at h
      obtain ⟨_, _, _, _, _, _, rfl⟩ := h
      rfl

/-- **What a text denotes under a tag is of the kind of the tag.** -/
theorem tagOfAtom_of_valueOf? {number : Nat} {tag : Tag} {text : Text} {a : Atom}
    (h : valueOf? (.computed number) tag text = some (.ok a)) : tagOfAtom a = tag := by
  cases tag with
  | null =>
    cases h
    rfl
  | str =>
    cases h
    rfl
  | int =>
    obtain ⟨n, rfl⟩ := exists_int_of_intOf (Option.some.inj h)
    rfl
  | float =>
    obtain ⟨d, rfl, -⟩ := exists_ofDocument_of_floatOf (Option.some.inj h)
    rfl
  | bool =>
    have hbool := Option.some.inj h
    unfold boolOf at hbool
    split at hbool
    · cases hbool
    · split at hbool
      · cases hbool
        rfl
      · cases hbool
  | binary =>
    have hbytes := Option.some.inj h
    unfold bytesOf at hbytes
    split at hbytes
    · cases hbytes
    · split at hbytes
      · split at hbytes
        · cases hbytes
          rfl
        · cases hbytes
      · cases hbytes
  | timestamp =>
    have hmoment := Option.some.inj h
    unfold momentOf at hmoment
    split at hmoment
    · cases hmoment
    · split at hmoment
      · rename_i htime
        cases hmoment
        exact tagOfAtom_of_timeOf? htime
      · cases hmoment
  | _ => cases h

/-- The values of texts can be held by a document: no other tag than that of doubles makes a
    double. -/
theorem IsValue.ofDocument {a : Atom} (h : IsValue a) : a.OfDocument := by
  obtain ⟨number, tag, text, h⟩ := h
  rintro d rfl
  obtain rfl : Tag.float = tag := tagOfAtom_of_valueOf? h
  obtain ⟨_, ⟨⟩, hd⟩ := exists_ofDocument_of_floatOf (Option.some.inj h)
  exact hd

end Scalar

/-! ## 2. Making -/

namespace Making

/-- One or several steps: every atom was there before, or is the value of a text. -/
def Denotes (m m' : Making) : Prop :=
  ∀ id a, m'.atom? id = some a → m.atom? id = some a ∨ Scalar.IsValue a

theorem Denotes.refl (m : Making) : m.Denotes m := fun _ _ h => .inl h

theorem Denotes.trans {m m' m'' : Making} (h : m.Denotes m') (h' : m'.Denotes m'') :
    m.Denotes m'' := by
  intro id a ha
  rcases h' id a ha with ha | ha
  · exact h id a ha
  · exact .inr ha

/-- Nothing has changed about the objects. -/
theorem denotes_of_object? {m m' : Making} (h : m'.object? = m.object?) : m.Denotes m' := by
  intro id a ha
  rw [atom?, h] at ha
  exact .inl ha

theorem atom?_eq_some {m : Making} {id : Ref} {a : Atom} :
    m.atom? id = some a ↔ m.object? id = some (.atom a) := by
  unfold atom?
  split
  · rename_i hb
    simp [hb]
  · rename_i hno
    exact iff_of_false (fun h => by cases h) (hno a)

theorem denotes_put (m : Making) (id : Ref) {o : Object}
    (ho : ∀ a, o = .atom a → Scalar.IsValue a) : m.Denotes (m.put id o) := by
  intro j a ha
  rw [atom?_eq_some, object?_put] at ha
  split at ha
  · exact .inr (ho a (Option.some.inj ha))
  · exact .inl (atom?_eq_some.mpr ha)

theorem denotes_make {id : NodeId} {m m' : Making} (h : make id m = .ok m') : m.Denotes m' := by
  rcases make_eq_ok h with rfl | ⟨-, o, ho, rfl⟩ | ⟨-, tag, t, a, hvalue, rfl⟩
  · exact .refl _
  · have hput : m.Denotes (m.put id o) := denotes_put m id fun a ha => by
      rw [ha] at ho
      unfold emptyOf? at ho
      split at ho <;> cases ho
    exact hput
  · refine denotes_put m id fun b hb => ?_
    cases hb
    exact ⟨id, tag, t, hvalue⟩

theorem denotes_makeEach : ∀ {ids : List NodeId} {m m' : Making}, makeEach ids m = .ok m' →
    m.Denotes m'
  | [], m, _, h => by
      cases h
      exact .refl m
  | id :: ids, m, m', h => by
      obtain ⟨m₁, h₁, h₂⟩ := bind_eq_ok.mp h
      exact (denotes_make h₁).trans (denotes_makeEach h₂)

theorem denotes_makePairs : ∀ {ps : List (NodeId × NodeId)} {entries : List (Ref × Ref)}
    {m : Making} {r : List (Ref × Ref) × Making}, makePairs entries ps m = .ok r → m.Denotes r.2
  | [], _, m, _, h => by
      cases h
      exact .refl m
  | (k, v) :: ps, entries, m, r, h => by
      obtain ⟨m₁, h₁, h₂⟩ := bind_eq_ok.mp h
      split at h₂
      · cases h₂
      · obtain ⟨m₂, h₃, h₄⟩ := bind_eq_ok.mp h₂
        exact ((denotes_make h₁).trans (denotes_make h₃)).trans (denotes_makePairs h₄)

theorem denotes_append (m : Making) (items : List Ref) :
    m.Denotes (m.append (.tuple items)).2 := by
  intro j a ha
  rw [atom?_eq_some, object?] at ha
  simp only [append, Array.getElem?_push] at ha
  split at ha
  · cases ha
  · exact .inl (atom?_eq_some.mpr ha)

theorem denotes_makeTuples : ∀ {ids : List NodeId} {tuples : List Ref} {m : Making}
    {r : List Ref × Making}, makeTuples tuples ids m = .ok r → m.Denotes r.2
  | [], _, m, _, h => by
      cases h
      exact .refl m
  | id :: ids, tuples, m, r, h => by
      unfold makeTuples at h
      split at h
      · rename_i k v _
        obtain ⟨m₁, h₁, h₂⟩ := bind_eq_ok.mp h
        obtain ⟨m₂, h₃, h₄⟩ := bind_eq_ok.mp h₂
        exact (((denotes_make h₁).trans (denotes_make h₃)).trans
          (denotes_append m₂ [k, v])).trans (denotes_makeTuples h₄)
      · cases h

theorem denotes_entries {id : NodeId} {m : Making} {r : List (Ref × Ref) × Making}
    (h : entries id m = .ok r) : m.Denotes r.2 := by
  unfold entries at h
  split at h
  · obtain ⟨m₁, h₁, h₂⟩ := bind_eq_ok.mp h
    have hflat := denotes_of_object? (onlyNodes_flattenFrom _ _ _ _ _ h₁).object?
    exact hflat.trans (denotes_makePairs h₂)
  · cases h

theorem denotes_fill {id : NodeId} {m m' : Making} (h : fill id m = .ok m') : m.Denotes m' := by
  have filled : ∀ {m₁ : Making} {o : Object}, m.Denotes m₁ → (∀ a, o ≠ .atom a) →
      m.Denotes (m₁.put id o) := fun h₁ ho =>
    h₁.trans (denotes_put _ id fun a ha => absurd ha (ho a))
  unfold fill at h
  dsimp only at h
  split at h
  · obtain ⟨⟨es, m₁⟩, h₁, h₂⟩ := bind_eq_ok.mp h
    cases h₂
    exact filled (denotes_entries h₁) (by rintro a ⟨⟩)
  · obtain ⟨⟨es, m₁⟩, h₁, h₂⟩ := bind_eq_ok.mp h
    cases h₂
    exact filled (denotes_entries h₁) (by rintro a ⟨⟩)
  · split at h
    · obtain ⟨m₁, h₁, h₂⟩ := bind_eq_ok.mp h
      cases h₂
      exact filled (denotes_makeEach h₁) (by rintro a ⟨⟩)
    · cases h
  · split at h
    · obtain ⟨⟨tuples, m₁⟩, h₁, h₂⟩ := bind_eq_ok.mp h
      cases h₂
      exact filled (denotes_makeTuples h₁) (by rintro a ⟨⟩)
    · cases h

theorem denotes_fillEach : ∀ {ids : List NodeId} {m m' : Making}, fillEach ids m = .ok m' →
    m.Denotes m'
  | [], m, _, h => by
      cases h
      exact .refl m
  | id :: ids, m, m', h => by
      obtain ⟨m₁, h₁, h₂⟩ := bind_eq_ok.mp h
      exact (denotes_fill h₁).trans (denotes_fillEach h₂)

theorem denotes_fillAll : ∀ {n : Nat} {m m' : Making}, fillAll n m = .ok m' → m.Denotes m'
  | 0, m, _, h => by
      cases h
      exact .refl m
  | n + 1, m, m', h => by
      unfold fillAll at h
      split at h
      · cases h
        exact .refl m
      · obtain ⟨m₁, h₁, h₂⟩ := bind_eq_ok.mp h
        have start : m.Denotes { m with due := [] } := denotes_of_object? rfl
        exact (start.trans (denotes_fillEach h₁)).trans (denotes_fillAll h₂)

end Making

/-! ## 3. Documents -/

/-- **Every atom of a loaded document is the value of a text.** -/
theorem load_denoted {text : List Char} {d : Document} (h : load text = .ok (some d)) {r : Ref}
    {a : Atom} (ha : d.graph.atom? r = some a) : Scalar.IsValue a := by
  obtain ⟨c, -, hd⟩ := load_eq_ok h
  obtain ⟨m₀, m, h₀, h₁, rfl⟩ := document_eq_ok hd
  have hdenotes := (Making.denotes_make h₀).trans (Making.denotes_fillAll h₁)
  unfold Graph.atom? at ha
  cases ho : m.object? r with
  | none =>
    rw [Making.object_graph_of_none ho] at ha
    cases ha
    exact Scalar.isValue_null
  | some o =>
    rw [Making.object_graph ho] at ha
    split at ha <;> cases ha
    rcases hdenotes r a (Making.atom?_eq_some.mpr ho) with hstart | hvalue
    · rw [Making.atom?_eq_some, Making.object?_start] at hstart
      cases hstart
    · exact hvalue

theorem load_ofDocument {text : List Char} {d : Document} (h : load text = .ok (some d)) {r : Ref}
    {a : Atom} (ha : d.graph.atom? r = some a) : a.OfDocument :=
  (load_denoted h ha).ofDocument

end Markup

end Conform
