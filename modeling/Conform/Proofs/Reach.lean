import Mathlib.Data.List.Perm.Subperm
import Conform.Markup.Print
import Conform.Proofs.Failing

/-!
# What a dump writes

An object is written by walking everything that it holds, in depth-first order and every object
with an identity once. This file shows that the walk leaves nothing out (`writable_spanning_iff`),
so that an object can be written exactly if no integer it holds, at any depth and through any
sharing, has too many digits (`dump_isOk_iff`).
-/

namespace Conform

/-- The objects that an object holds directly. -/
def Object.parts : Object → List Ref
  | .atom _ => []
  | .list items => items
  | .tuple items => items
  | .set items => items
  | .map entries => entries.flatMap fun e => [e.1, e.2]

namespace Graph

/-! ## 1. Holding -/

/-- An object holds another one, at any depth, or is it. -/
inductive Reaches (g : Graph) (r : Ref) : Ref → Prop
  | refl : Reaches g r r
  | step {q p : Ref} : Reaches g r q → p ∈ (g.object q).parts → Reaches g r p

/-- An object is no integer with too many digits. -/
def Writable (g : Graph) (r : Ref) : Prop :=
  ∀ i, g.object r = .atom (.int i) → Numeral.isWritable i = true

theorem Reaches.head {g : Graph} {r q p : Ref} (hq : q ∈ (g.object r).parts)
    (h : g.Reaches q p) : g.Reaches r p := by
  induction h with
  | refl => exact .step .refl hq
  | step _ hp ih => exact ih.step hp

/-! ## 2. One step of the walk -/

/-- What has been met, after an object more. -/
def note (g : Graph) (r : Ref) (met : List Ref) : List Ref :=
  if (g.object r).hasIdentity then r :: met else met

/-- Walks what an object holds. -/
def spanObject (walk : Ref → List Ref → Spanning × List Ref) (r : Ref) (met : List Ref) :
    Object → Spanning × List Ref
  | .atom a => (.atom r a, met)
  | .list items => (.list r (spanEach walk items met).1, (spanEach walk items met).2)
  | .tuple items => (.tuple r (spanEach walk items met).1, (spanEach walk items met).2)
  | .set items => (.set r (spanEach walk items met).1, (spanEach walk items met).2)
  | .map entries => (.map r (spanPairs walk entries met).1, (spanPairs walk entries met).2)

section Step

variable {g : Graph} {n : Nat} {r : Ref} {met : List Ref}

/-- An object that has been met is not entered again. -/
theorem spanFrom_again (hid : (g.object r).hasIdentity = true) (hr : r ∈ met) :
    g.spanFrom (n + 1) r met = (.back r, met) := by
  have hmet : ((g.object r).hasIdentity && met.contains r) = true :=
    Bool.and_eq_true_iff.mpr ⟨hid, List.contains_iff_mem.mpr hr⟩
  rw [spanFrom]
  exact if_pos hmet

/-- Any other object is noted before what it holds is walked. -/
theorem spanFrom_enter (hr : (g.object r).hasIdentity = true → r ∉ met) :
    g.spanFrom (n + 1) r met = spanObject (g.spanFrom n) r (g.note r met) (g.object r) := by
  have hmet : ¬ ((g.object r).hasIdentity && met.contains r) = true := fun h =>
    hr (Bool.and_eq_true_iff.mp h).1 (List.contains_iff_mem.mp (Bool.and_eq_true_iff.mp h).2)
  rw [spanFrom, note]
  refine (if_neg hmet).trans ?_
  generalize g.object r = o
  cases o <;> rfl

/-- An object without identity holds nothing. -/
theorem parts_eq_nil (h : (g.object r).hasIdentity = false) : (g.object r).parts = [] := by
  cases ho : g.object r with
  | atom a => rfl
  | tuple items =>
    cases items with
    | nil => rfl
    | cons p ps =>
      rw [ho] at h
      cases h
  | _ =>
    rw [ho] at h
    cases h

end Step

/-! ## 3. What is written is held -/

section Held

variable {g : Graph} {walk : Ref → List Ref → Spanning × List Ref}

theorem writable_spanEach (hwalk : ∀ r met, (∀ p, g.Reaches r p → g.Writable p) →
    Markup.isWritable (walk r met).1 = true) : ∀ (rs met : List Ref),
    (∀ r ∈ rs, ∀ p, g.Reaches r p → g.Writable p) →
    Markup.isWritableAll (spanEach walk rs met).1 = true
  | [], _ => fun _ => rfl
  | r :: rs, met => fun h => by
      obtain ⟨hr, hrs⟩ := List.forall_mem_cons.mp h
      exact Bool.and_eq_true_iff.mpr ⟨hwalk r met hr, writable_spanEach hwalk rs _ hrs⟩

theorem writable_spanPairs (hwalk : ∀ r met, (∀ p, g.Reaches r p → g.Writable p) →
    Markup.isWritable (walk r met).1 = true) : ∀ (es : List (Ref × Ref)) (met : List Ref),
    (∀ r ∈ es.flatMap fun e => [e.1, e.2], ∀ p, g.Reaches r p → g.Writable p) →
    Markup.isWritableEntries (spanPairs walk es met).1 = true
  | [], _ => fun _ => rfl
  | (k, v) :: es, met => fun h => by
      simp only [List.flatMap_cons, List.cons_append, List.nil_append] at h
      obtain ⟨hk, h⟩ := List.forall_mem_cons.mp h
      obtain ⟨hv, hes⟩ := List.forall_mem_cons.mp h
      have hkv := Bool.and_eq_true_iff.mpr ⟨hwalk k met hk, hwalk v (walk k met).2 hv⟩
      exact Bool.and_eq_true_iff.mpr ⟨hkv, writable_spanPairs hwalk es _ hes⟩

theorem writable_spanObject (hwalk : ∀ r met, (∀ p, g.Reaches r p → g.Writable p) →
    Markup.isWritable (walk r met).1 = true) {r : Ref} (met : List Ref)
    (h : ∀ p, g.Reaches r p → g.Writable p) :
    Markup.isWritable (spanObject walk r met (g.object r)).1 = true := by
  have hparts : ∀ q ∈ (g.object r).parts, ∀ p, g.Reaches q p → g.Writable p :=
    fun q hq p hp => h p (hp.head hq)
  cases ho : g.object r with
  | atom a =>
    cases a with
    | int i => exact h r .refl i ho
    | _ => rfl
  | map entries =>
    rw [ho] at hparts
    exact writable_spanPairs hwalk entries met hparts
  | _ items =>
    rw [ho] at hparts
    exact writable_spanEach hwalk items met hparts

/-- If everything an object holds can be written, so can its tree. -/
theorem writable_spanFrom : ∀ (n : Nat) (r : Ref) (met : List Ref),
    (∀ p, g.Reaches r p → g.Writable p) → Markup.isWritable (g.spanFrom n r met).1 = true
  | 0, _, _ => fun _ => rfl
  | n + 1, r, met => fun h => by
      by_cases hr : (g.object r).hasIdentity = true ∧ r ∈ met
      · rw [spanFrom_again hr.1 hr.2]
        rfl
      · rw [spanFrom_enter fun hid hmem => hr ⟨hid, hmem⟩]
        exact writable_spanObject (writable_spanFrom n) _ h

end Held

/-! ## 4. What is held is written -/

/-- The objects met on a walk are different and have identities. -/
def Met (g : Graph) (met : List Ref) : Prop :=
  met.Nodup ∧ ∀ r ∈ met, (g.object r).hasIdentity = true

/-- An object has been met, or stands wherever it is held and can be written. -/
def Seen (g : Graph) (met : List Ref) (r : Ref) : Prop :=
  r ∈ met ∨ ((g.object r).parts = [] ∧ g.Writable r)

theorem Met.length_le {g : Graph} {met : List Ref} (h : g.Met met) :
    met.length ≤ g.objects.size := by
  have hsub : met ⊆ List.range g.objects.size := by
    intro r hr
    rw [List.mem_range]
    rcases Nat.lt_or_ge r g.objects.size with hlt | hge
    · exact hlt
    · have hid := h.2 r hr
      rw [object, Array.getElem?_eq_none hge] at hid
      cases hid
  have := (List.subperm_of_subset h.1 hsub).length_le
  rwa [List.length_range] at this

theorem Seen.mono {g : Graph} {met met' : List Ref} {r : Ref} (h : g.Seen met r)
    (hm : met <:+ met') : g.Seen met' r :=
  h.imp_left fun hr => hm.subset hr

theorem writable_of_hasIdentity {g : Graph} {r : Ref} (h : (g.object r).hasIdentity = true) :
    g.Writable r := by
  intro i hi
  rw [hi] at h
  cases h

/-- A walk over some objects, from what has been met before to what has been met then. If all that
    it passes can be written, then it has seen these objects and whatever the objects that it met
    hold. -/
structure Tour (g : Graph) (rs met met' : List Ref) (writable : Bool) : Prop where
  grows : met <:+ met'
  apart : g.Met met'
  seen : writable = true → ∀ r ∈ rs, g.Seen met' r
  closed : writable = true → ∀ q ∈ met', q ∉ met → ∀ p ∈ (g.object q).parts, g.Seen met' p

namespace Tour

variable {g : Graph} {rs rs' met met' met'' : List Ref} {b b' : Bool}

theorem nil (h : g.Met met) : g.Tour [] met met true :=
  ⟨List.suffix_rfl, h, fun _ _ hr => absurd hr List.not_mem_nil, fun _ _ hq hn => absurd hq hn⟩

/-- One walk after the other. -/
theorem append (h : g.Tour rs met met' b) (h' : g.Tour rs' met' met'' b') :
    g.Tour (rs ++ rs') met met'' (b && b') := by
  refine ⟨h.grows.trans h'.grows, h'.apart, fun hb r hr => ?_, fun hb q hq hn p hp => ?_⟩
  · obtain ⟨hb₁, hb₂⟩ := Bool.and_eq_true_iff.mp hb
    rcases List.mem_append.mp hr with hr | hr
    · exact (h.seen hb₁ r hr).mono h'.grows
    · exact h'.seen hb₂ r hr
  · obtain ⟨hb₁, hb₂⟩ := Bool.and_eq_true_iff.mp hb
    by_cases hq' : q ∈ met'
    · exact (h.closed hb₁ q hq' hn p hp).mono h'.grows
    · exact h'.closed hb₂ q hq hq' p hp

/-- An object that has been met before is passed by. -/
theorem again {r : Ref} (h : g.Met met) (hr : r ∈ met) : g.Tour [r] met met true := by
  refine ⟨List.suffix_rfl, h, fun _ q hq => ?_, fun _ q hq hn => absurd hq hn⟩
  cases List.mem_singleton.mp hq
  exact .inl hr

/-- An object that holds nothing and has no identity leaves no trace. -/
theorem leaf {r : Ref} (h : g.Met met) (hp : (g.object r).parts = [])
    (hb : b = true → g.Writable r) : g.Tour [r] met met b := by
  refine ⟨List.suffix_rfl, h, fun ht q hq => ?_, fun _ q hq hn => absurd hq hn⟩
  cases List.mem_singleton.mp hq
  exact .inr ⟨hp, hb ht⟩

/-- An object that is met for the first time is noted before what it holds is walked. -/
theorem enter {r : Ref} (h : g.Tour (g.object r).parts (r :: met) met' b) :
    g.Tour [r] met met' b := by
  refine ⟨(List.suffix_cons r met).trans h.grows, h.apart, fun _ q hq => ?_, fun hb q hq hn => ?_⟩
  · cases List.mem_singleton.mp hq
    exact .inl (h.grows.subset List.mem_cons_self)
  · by_cases hqr : q = r
    · cases hqr
      exact h.seen hb
    · exact h.closed hb q hq fun hmem => (List.mem_cons.mp hmem).elim hqr hn

end Tour

section Walks

variable {g : Graph} {n : Nat} {walk : Ref → List Ref → Spanning × List Ref}
  (hwalk : ∀ r met, g.Met met → g.objects.size < n + met.length →
    g.Tour [r] met (walk r met).2 (Markup.isWritable (walk r met).1))
include hwalk

theorem tour_spanEach : ∀ (rs met : List Ref), g.Met met → g.objects.size < n + met.length →
    g.Tour rs met (spanEach walk rs met).2 (Markup.isWritableAll (spanEach walk rs met).1)
  | [], _ => fun h _ => .nil h
  | r :: rs, met => fun h hn => by
      have hr := hwalk r met h hn
      have hlen := hr.grows.length_le
      exact hr.append (tour_spanEach rs _ hr.apart (by omega))

theorem tour_spanPairs : ∀ (es : List (Ref × Ref)) (met : List Ref), g.Met met →
    g.objects.size < n + met.length →
    g.Tour (es.flatMap fun e => [e.1, e.2]) met (spanPairs walk es met).2
      (Markup.isWritableEntries (spanPairs walk es met).1)
  | [], _ => fun h _ => .nil h
  | (k, v) :: es, met => fun h hn => by
      have hk := hwalk k met h hn
      have hklen := hk.grows.length_le
      have hv := hwalk v _ hk.apart (by omega)
      have hvlen := hv.grows.length_le
      exact (hk.append hv).append (tour_spanPairs es _ hv.apart (by omega))

/-- Walking what an object holds is a tour over its parts. -/
theorem tour_spanObject (r : Ref) {met : List Ref} (h : g.Met met)
    (hn : g.objects.size < n + met.length) : ∀ o : Object, o.hasIdentity = true →
    g.Tour o.parts met (spanObject walk r met o).2 (Markup.isWritable (spanObject walk r met o).1)
  | .atom (.day _), _ => .nil h
  | .atom (.moment _), _ => .nil h
  | .list items, _ => tour_spanEach hwalk items met h hn
  | .tuple items, _ => tour_spanEach hwalk items met h hn
  | .set items, _ => tour_spanEach hwalk items met h hn
  | .map entries, _ => tour_spanPairs hwalk entries met h hn

end Walks

theorem Met.cons {g : Graph} {met : List Ref} {r : Ref} (h : g.Met met) (hr : r ∉ met)
    (hid : (g.object r).hasIdentity = true) : g.Met (r :: met) :=
  ⟨List.nodup_cons.mpr ⟨hr, h.1⟩, List.forall_mem_cons.mpr ⟨hid, h.2⟩⟩

/-- The walk from an object is a tour, as long as it is not deeper than there are objects. -/
theorem tour_spanFrom {g : Graph} : ∀ (n : Nat) (r : Ref) (met : List Ref), g.Met met →
    g.objects.size < n + met.length →
    g.Tour [r] met (g.spanFrom n r met).2 (Markup.isWritable (g.spanFrom n r met).1)
  | 0, _, met => fun h hn => by
      have := h.length_le
      omega
  | n + 1, r, met => fun h hn => by
      by_cases hr : r ∈ met
      · rw [spanFrom_again (h.2 r hr) hr]
        exact .again h hr
      · rw [spanFrom_enter fun _ => hr]
        cases hid : (g.object r).hasIdentity with
        | true =>
          rw [note, hid, if_pos rfl]
          have hn' : g.objects.size < n + (r :: met).length := by
            rw [List.length_cons]
            omega
          exact .enter (tour_spanObject (tour_spanFrom n) r (h.cons hr hid) hn' _ hid)
        | false =>
          have hnil := parts_eq_nil hid
          rw [note, hid, if_neg Bool.false_ne_true]
          cases ho : g.object r with
          | atom a =>
            refine .leaf h (by rw [ho]; rfl) fun hb i hi => ?_
            cases ho.symm.trans hi
            exact hb
          | tuple items =>
            rw [ho] at hnil
            cases (show items = [] from hnil)
            exact .leaf h (by rw [ho]; rfl) fun _ i hi => by cases ho.symm.trans hi
          | _ =>
            rw [ho] at hid
            cases hid

/-- **The walk leaves nothing out**: a spanning tree can be written exactly if everything that the
    object holds can be. -/
theorem writable_spanning_iff {g : Graph} {r : Ref} :
    Markup.isWritable (g.spanning r) = true ↔ ∀ p, g.Reaches r p → g.Writable p := by
  constructor
  · intro hb p hp
    have none : g.Met [] := ⟨List.nodup_nil, fun q hq => absurd hq List.not_mem_nil⟩
    have tour := tour_spanFrom (g.objects.size + 1) r [] none (Nat.lt_succ_self _)
    have seen : g.Seen (g.spanFrom (g.objects.size + 1) r []).2 p := by
      induction hp with
      | refl => exact tour.seen hb r (List.mem_singleton.mpr rfl)
      | step _ hmem ih =>
        rcases ih with hq | ⟨hnil, -⟩
        · exact tour.closed hb _ hq List.not_mem_nil _ hmem
        · rw [hnil] at hmem
          cases hmem
    rcases seen with hmet | ⟨-, hw⟩
    · exact writable_of_hasIdentity (tour.apart.2 p hmet)
    · exact hw
  · exact writable_spanFrom _ r []

theorem dump_isOk_iff {g : Graph} {r : Ref} :
    (∃ text, g.dump r = .ok text) ↔ ∀ p, g.Reaches r p → g.Writable p := by
  rw [← writable_spanning_iff, dump]
  cases Markup.isWritable (g.spanning r) <;> simp

end Graph

end Conform
