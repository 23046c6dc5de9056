import Mathlib.Data.List.Nodup
import Conform.Proofs.Markup.Walk

/-!
# Anchors are exact

A record is written in two passes over its graph: the first numbers the objects that are met again,
the second writes every object once and refers to it from then on. This file shows that both passes
follow the walk over the graph:

* `place_of_walks`: an object is written in full where it is met first, and as a reference wherever
  it is met again;
* `anchored_eq_secondMeetings`: anchors are given in the order of second meetings.

Together they say at which place there is which anchor or alias (`anchors_are_exact`).
-/

namespace Conform.Graph

open Markup

/-! ## 1. First and second meetings -/

/-- The objects with an identity, at those of some meetings where they have been met before as often
    as is asked for. In front is what has been met before, newest first. -/
def meetings (g : Graph) (often : Nat → Bool) : List Ref → List Ref → List Ref
  | _, [] => []
  | front, q :: rest =>
    if (g.object q).hasIdentity && often (front.count q) then
      q :: meetings g often (q :: front) rest
    else meetings g often (q :: front) rest

/-- The objects that are met a second time, in the order in which that happens. -/
def secondMeetings (g : Graph) (visits : List Ref) : List Ref :=
  g.meetings (· == 1) [] visits

/-- An object has been met before a meeting. -/
def MetBefore (g : Graph) (visits : List Ref) (i : Nat) (q : Ref) : Prop :=
  (g.object q).Shareable ∧ q ∈ visits.take i

section Meetings

variable {g : Graph}

theorem meetings_cons_of (often : Nat → Bool) {front rest : List Ref} {q : Ref}
    (hid : (g.object q).hasIdentity = true) (ho : often (front.count q) = true) :
    g.meetings often front (q :: rest) = q :: g.meetings often (q :: front) rest := by
  rw [meetings, hid, ho]
  rfl

theorem meetings_cons_of_not (often : Nat → Bool) {front rest : List Ref} {q : Ref}
    (h : (g.object q).hasIdentity = true → often (front.count q) = false) :
    g.meetings often front (q :: rest) = g.meetings often (q :: front) rest := by
  rw [meetings]
  cases hid : (g.object q).hasIdentity with
  | false => rfl
  | true =>
    rw [h hid]
    rfl

theorem hasIdentity_of_mem_meetings {often : Nat → Bool} {q : Ref} :
    ∀ {visits front : List Ref}, q ∈ g.meetings often front visits →
      (g.object q).hasIdentity = true
  | [], _, h => by cases h
  | p :: rest, front, h => by
      rw [meetings] at h
      split at h
      · rename_i hp
        rcases List.mem_cons.mp h with rfl | h
        · exact (Bool.and_eq_true_iff.mp hp).1
        · exact hasIdentity_of_mem_meetings h
      · exact hasIdentity_of_mem_meetings h

/-- The objects that are met a second time are those that are met at least twice. -/
theorem mem_second_iff {q : Ref} : ∀ {visits front : List Ref},
    q ∈ g.meetings (· == 1) front visits ↔ (g.object q).hasIdentity = true ∧
      front.count q ≤ 1 ∧ 2 ≤ front.count q + visits.count q
  | [], front => by
      simp only [meetings, List.not_mem_nil, List.count_nil, false_iff]
      omega
  | p :: rest, front => by
      have ih := @mem_second_iff q rest (p :: front)
      by_cases hp : (g.object p).hasIdentity = true ∧ front.count p = 1
      · rw [meetings_cons_of (· == 1) hp.1 (beq_iff_eq.mpr hp.2), List.mem_cons, ih]
        by_cases hq : p = q
        · subst hq
          simp only [hp, true_or, Nat.le_refl, List.count_cons_self, true_and, true_iff]
          omega
        · simp [List.count_cons_of_ne hq, Ne.symm hq]
      · have hno : (g.object p).hasIdentity = true → (front.count p == 1) = false := fun hid =>
          beq_eq_false_iff_ne.mpr fun h1 => hp ⟨hid, h1⟩
        rw [meetings_cons_of_not (· == 1) hno, ih]
        by_cases hq : p = q
        · subst hq
          simp only [List.count_cons_self]
          refine and_congr_right fun hid => ?_
          have : front.count p ≠ 1 := fun h1 => hp ⟨hid, h1⟩
          omega
        · simp [List.count_cons_of_ne hq]

theorem nodup_second : ∀ {visits front : List Ref}, (g.meetings (· == 1) front visits).Nodup
  | [], _ => List.nodup_nil
  | p :: rest, front => by
      rw [meetings]
      split
      · rename_i hp
        refine List.nodup_cons.mpr ⟨fun hmem => ?_, nodup_second⟩
        have h1 : front.count p = 1 := beq_iff_eq.mp (Bool.and_eq_true_iff.mp hp).2
        have h2 := (mem_second_iff.mp hmem).2.1
        rw [List.count_cons_self] at h2
        omega
      · exact nodup_second

/-- Of the meetings with objects that have been met before, the first with each object is its
    second meeting. -/
theorem second_eq_eraseDups : ∀ visits front : List Ref, g.meetings (· == 1) front visits =
    ((g.meetings (1 ≤ ·) front visits).filter fun q => front.count q ≤ 1).eraseDups
  | [], _ => rfl
  | p :: rest, front => by
      have ih := second_eq_eraseDups rest (p :: front)
      by_cases hp : (g.object p).hasIdentity = true ∧ 1 ≤ front.count p
      · rw [meetings_cons_of (1 ≤ ·) hp.1 (decide_eq_true hp.2)]
        by_cases h1 : front.count p = 1
        · rw [meetings_cons_of (· == 1) hp.1 (beq_iff_eq.mpr h1), ih,
            List.filter_cons_of_pos (by simp [h1]), List.eraseDups_cons, List.filter_filter]
          congr 2
          refine List.filter_congr fun q _ => ?_
          by_cases hq : p = q
          · subst hq
            simp [h1]
          · simp [List.count_cons_of_ne hq, Ne.symm hq]
        · rw [meetings_cons_of_not (· == 1) fun _ => beq_eq_false_iff_ne.mpr h1, ih,
            List.filter_cons_of_neg (by simp; omega)]
          congr 1
          refine List.filter_congr fun q _ => ?_
          by_cases hq : p = q
          · subst hq
            simp only [List.count_cons_self, decide_eq_decide]
            omega
          · simp [List.count_cons_of_ne hq]
      · have hno : (g.object p).hasIdentity = true → front.count p = 0 := fun hid => by
          have : ¬ 1 ≤ front.count p := fun h => hp ⟨hid, h⟩
          omega
        rw [meetings_cons_of_not (· == 1) fun hid => by rw [hno hid]; rfl,
          meetings_cons_of_not (1 ≤ ·) fun hid => by rw [hno hid]; rfl, ih]
        congr 1
        refine List.filter_congr fun q hq => ?_
        by_cases hpq : p = q
        · subst hpq
          simp [hno (hasIdentity_of_mem_meetings hq)]
        · simp [List.count_cons_of_ne hpq]

end Meetings

/-! ## 2. Places and meetings -/

/-- The objects that a walk meets, one for every place. -/
def visits (walk : List (Tree.Place Ref Ref)) : List Ref :=
  walk.map Tree.Place.object

/-- **An object is written in full where it is met first**, and referred to wherever it is met
    again. -/
theorem place_of_walks {g : Graph} {met todo : List Ref} {ps : List (Tree.Place Ref Ref)}
    (h : g.Walks met todo ps) (hm : ∀ q ∈ met, (g.object q).hasIdentity = true) {i : Nat} {q : Ref}
    (hq : (visits ps)[i]? = some q) :
    ((g.object q).hasIdentity = true → (q ∈ met ∨ q ∈ (visits ps).take i) →
        ps[i]? = some (.back q)) ∧
      (((g.object q).hasIdentity = true → ¬ (q ∈ met ∨ q ∈ (visits ps).take i)) →
        ps[i]? = some (.full q (g.object q).head)) := by
  induction h generalizing i with
  | done => cases hq
  | @again met todo r ps hr _ ih =>
    cases i with
    | zero =>
      cases hq
      exact ⟨fun _ _ => rfl, fun h => absurd (.inl hr) (h (hm r hr))⟩
    | succ i =>
      obtain ⟨hback, hfull⟩ := ih hm hq
      have hiff : (q ∈ met ∨ q ∈ (visits ps).take i) ↔
          (q ∈ met ∨ q ∈ (visits (.back r :: ps)).take (i + 1)) := by
        simp only [visits, List.map_cons, Tree.Place.object, List.take_succ_cons, List.mem_cons]
        constructor
        · exact fun h => h.imp_right .inr
        · rintro (h | rfl | h)
          · exact .inl h
          · exact .inl hr
          · exact .inr h
      exact ⟨fun hid h => hback hid (hiff.mpr h),
        fun h => hfull fun hid hmem => h hid (hiff.mp hmem)⟩
  | @enter met todo r ps hr _ ih =>
    cases i with
    | zero =>
      cases hq
      exact ⟨fun _ h => h.elim (absurd · hr) (absurd · List.not_mem_nil), fun _ => rfl⟩
    | succ i =>
      -- What has been met grows by the object, as what is in front grows by its place.
      have hnote : ∀ p, p ∈ g.note r met ↔ (g.object r).hasIdentity = true ∧ p = r ∨ p ∈ met := by
        intro p
        rw [note]
        cases hid : (g.object r).hasIdentity <;> simp
      obtain ⟨hback, hfull⟩ := ih (fun p hp => by
        rcases (hnote p).mp hp with ⟨hid, rfl⟩ | hp
        · exact hid
        · exact hm p hp) hq
      have hiff : (g.object q).hasIdentity = true →
          ((q ∈ g.note r met ∨ q ∈ (visits ps).take i) ↔
            (q ∈ met ∨ q ∈ (visits (.full r (g.object r).head :: ps)).take (i + 1))) := by
        intro hid
        rw [hnote]
        simp only [visits, List.map_cons, Tree.Place.object, List.take_succ_cons, List.mem_cons]
        constructor
        · rintro ((⟨-, rfl⟩ | h) | h)
          · exact .inr (.inl rfl)
          · exact .inl h
          · exact .inr (.inr h)
        · rintro (h | rfl | h)
          · exact .inl (.inr h)
          · exact .inl (.inl ⟨hid, rfl⟩)
          · exact .inr h
      exact ⟨fun hid h => hback hid ((hiff hid).mpr h),
        fun h => hfull fun hid hmem => h hid ((hiff hid).mp hmem)⟩

/-- The references of a walk are the meetings with objects that have been met before. -/
theorem refs_of_walks {g : Graph} {met todo : List Ref} {ps : List (Tree.Place Ref Ref)}
    (h : g.Walks met todo ps) (front : List Ref)
    (hf : ∀ q, q ∈ met ↔ (g.object q).hasIdentity = true ∧ 1 ≤ front.count q) :
    ps.filterMap Tree.Place.ref? = g.meetings (1 ≤ ·) front (visits ps) := by
  induction h generalizing front with
  | done => rfl
  | @again met todo r ps hr _ ih =>
    obtain ⟨hid, hcount⟩ := (hf r).mp hr
    have hf' : ∀ q, q ∈ met ↔ (g.object q).hasIdentity = true ∧ 1 ≤ (r :: front).count q := by
      intro q
      rw [hf q]
      by_cases hq : r = q
      · subst hq
        simp [hcount]
      · simp [List.count_cons_of_ne hq]
    exact (congrArg (r :: ·) (ih _ hf')).trans
      (meetings_cons_of (1 ≤ ·) hid (decide_eq_true hcount)).symm
  | @enter met todo r ps hr _ ih =>
    have hno : (g.object r).hasIdentity = true → decide (1 ≤ front.count r) = false := fun hid =>
      decide_eq_false fun h => hr ((hf r).mpr ⟨hid, h⟩)
    have hf' : ∀ q, q ∈ g.note r met ↔
        (g.object q).hasIdentity = true ∧ 1 ≤ (r :: front).count q := by
      intro q
      rw [note]
      by_cases hq : r = q
      · subst hq
        cases hid : (g.object r).hasIdentity with
        | true => simp
        | false => simp [hf, hid]
      · cases (g.object r).hasIdentity <;> simp [List.count_cons_of_ne hq, hf q, Ne.symm hq]
    exact (ih _ hf').trans (meetings_cons_of_not (1 ≤ ·) hno).symm

/-- **Anchors are given in the order of second meetings.** -/
theorem anchored_eq_secondMeetings (g : Graph) (r : Ref) :
    anchored (g.spanning r) = g.secondMeetings (visits (places (g.spanning r))) := by
  have hrefs := refs_of_walks (walks_spanning g r) [] (by simp)
  rw [anchored, backRefs_eq, hrefs, secondMeetings, second_eq_eraseDups]
  simp

/-! ## 3. What is written -/

/-- What is written for some meetings is exact: an object has an anchor if it can be met again and
    is, its first place carries the anchor and the content, and every later place is an alias. -/
structure Anchored (g : Graph) (visits : List Ref) (written : List (Tree.Place (Option Nat) Nat)) :
    Prop where
  /-- For every meeting there is one place. -/
  length_eq : written.length = visits.length
  /-- An object that has not been met before is written in full, under the anchor `n` if it is the
      `n`-th one to be met a second time. -/
  first : ∀ (i : Nat) (q : Ref), visits[i]? = some q → ¬ g.MetBefore visits i q →
    ∃ anchor, written[i]? = some (Tree.Place.full anchor (g.object q).head) ∧
      (anchor.isSome = true ↔ (g.object q).Shareable ∧ 2 ≤ visits.count q) ∧
      ∀ n, anchor = some n ↔ 1 ≤ n ∧ (g.secondMeetings visits)[n - 1]? = some q
  /-- An object that has been met before is an alias of the anchor at its first place. -/
  again : ∀ (i : Nat) (q : Ref), visits[i]? = some q → g.MetBefore visits i q →
    ∃ (j n : Nat), j < i ∧ visits[j]? = some q ∧ ¬ g.MetBefore visits j q ∧
      written[j]? = some (Tree.Place.full (some n) (g.object q).head) ∧
      written[i]? = some (Tree.Place.back n)
  /-- The numbers of the anchors are those from one on. -/
  numbers : ∀ n, (∃ (i : Nat) (head : Head), written[i]? = some (Tree.Place.full (some n) head)) ↔
    1 ≤ n ∧ n ≤ (g.secondMeetings visits).length
  /-- No number is given twice. -/
  once : ∀ (i j n : Nat) (head head' : Head), written[i]? = some (Tree.Place.full (some n) head) →
    written[j]? = some (Tree.Place.full (some n) head') → i = j

theorem exists_first {q : Ref} {visits : List Ref} : ∀ {i : Nat}, q ∈ visits.take i →
    ∃ j, j < i ∧ visits[j]? = some q ∧ q ∉ visits.take j
  | 0, h => by cases h
  | i + 1, h => by
      by_cases hmem : q ∈ visits.take i
      · obtain ⟨j, hj, hfirst⟩ := exists_first hmem
        exact ⟨j, Nat.lt_succ_of_lt hj, hfirst⟩
      · rw [List.take_add_one, List.mem_append, Option.mem_toList] at h
        exact ⟨i, Nat.lt_succ_self i, h.resolve_left hmem, hmem⟩

theorem mem_take_of_lt {q : Ref} {visits : List Ref} {i j : Nat} (h : visits[i]? = some q)
    (hij : i < j) : q ∈ visits.take j :=
  List.mem_of_getElem? (by rw [List.getElem?_take_of_lt hij, h])

theorem two_le_count {q : Ref} {visits : List Ref} {i : Nat} (h : visits[i]? = some q)
    (hmem : q ∈ visits.take i) : 2 ≤ visits.count q := by
  obtain ⟨hi, hq⟩ := List.getElem?_eq_some_iff.mp h
  have hsplit : visits = visits.take i ++ q :: visits.drop (i + 1) := by
    rw [← hq, ← List.drop_eq_getElem_cons hi, List.take_append_drop]
  have hfront := List.count_pos_iff.mpr hmem
  rw [hsplit, List.count_append, List.count_cons_self]
  omega

theorem anchorOf?_eq_some_iff {refs : List Ref} (hrefs : refs.Nodup) {q : Ref} {n : Nat} :
    anchorOf? refs q = some n ↔ 1 ≤ n ∧ refs[n - 1]? = some q := by
  rw [anchorOf?, Option.map_eq_some_iff]
  constructor
  · rintro ⟨k, hk, rfl⟩
    obtain ⟨hlt, hq, -⟩ := List.idxOf?_eq_some_iff.mp hk
    exact ⟨Nat.succ_pos k, List.getElem?_eq_some_iff.mpr ⟨hlt, hq⟩⟩
  · rintro ⟨hn, hq⟩
    obtain ⟨hlt, hget⟩ := List.getElem?_eq_some_iff.mp hq
    refine ⟨n - 1, List.idxOf?_eq_some_iff.mpr ⟨hlt, hget, fun j hj heq => ?_⟩, by omega⟩
    have := hrefs.getElem_inj_iff.mp (heq.trans hget.symm)
    omega

section Written

variable {g : Graph} {r : Ref} {walk : List (Tree.Place Ref Ref)} {i : Nat} {q : Ref}

theorem place_of_first (h : g.Walks [] [r] walk) (hq : (visits walk)[i]? = some q)
    (hfirst : ¬ g.MetBefore (visits walk) i q) : walk[i]? = some (.full q (g.object q).head) :=
  (place_of_walks h (fun _ hm => absurd hm List.not_mem_nil) hq).2 fun hid hmem =>
    hfirst ⟨Object.hasIdentity_iff.mp hid, hmem.resolve_left List.not_mem_nil⟩

theorem place_of_again (h : g.Walks [] [r] walk) (hq : (visits walk)[i]? = some q)
    (hagain : g.MetBefore (visits walk) i q) : walk[i]? = some (.back q) :=
  (place_of_walks h (fun _ hm => absurd hm List.not_mem_nil) hq).1
    (Object.hasIdentity_iff.mpr hagain.1) (.inr hagain.2)

/-- An object written in full at a place is met there and has not been met before. -/
theorem first_of_place (h : g.Walks [] [r] walk) {head : Head}
    (hp : walk[i]? = some (.full q head)) :
    (visits walk)[i]? = some q ∧ ¬ g.MetBefore (visits walk) i q := by
  have hq : (visits walk)[i]? = some q := by
    rw [visits, List.getElem?_map, hp]
    rfl
  refine ⟨hq, fun hbefore => ?_⟩
  rw [place_of_again h hq hbefore] at hp
  cases hp

theorem mem_secondMeetings_iff {vs : List Ref} :
    q ∈ g.secondMeetings vs ↔ (g.object q).Shareable ∧ 2 ≤ vs.count q := by
  rw [secondMeetings, mem_second_iff, Object.hasIdentity_iff]
  simp

/-- The `n`-th object to be met a second time has the number `n`. -/
theorem anchorOf?_secondMeetings {vs : List Ref} {n : Nat} :
    anchorOf? (g.secondMeetings vs) q = some n ↔
      1 ≤ n ∧ (g.secondMeetings vs)[n - 1]? = some q :=
  anchorOf?_eq_some_iff nodup_second

/-- An object that is met twice has a first place, and a number. -/
theorem exists_first_of_mem {vs : List Ref} (h : q ∈ g.secondMeetings vs) :
    ∃ j n, vs[j]? = some q ∧ ¬ g.MetBefore vs j q ∧
      anchorOf? (g.secondMeetings vs) q = some n := by
  have hmem : q ∈ vs.take vs.length := by
    rw [List.take_length, ← List.count_pos_iff]
    have := (mem_secondMeetings_iff.mp h).2
    omega
  obtain ⟨j, -, hq, hfirst⟩ := exists_first hmem
  obtain ⟨k, hk⟩ := Option.isSome_iff_exists.mp (List.isSome_idxOf?.mpr h)
  exact ⟨j, k + 1, hq, fun hb => hfirst hb.2, by rw [anchorOf?, hk]; rfl⟩

/-- Two first places of one object are one place. -/
theorem first_unique {vs : List Ref} {j : Nat} (hs : (g.object q).Shareable)
    (hi : vs[i]? = some q) (hj : vs[j]? = some q) (hfi : ¬ g.MetBefore vs i q)
    (hfj : ¬ g.MetBefore vs j q) : i = j := by
  rcases Nat.lt_trichotomy i j with hlt | rfl | hgt
  · exact absurd ⟨hs, mem_take_of_lt hi hlt⟩ hfj
  · rfl
  · exact absurd ⟨hs, mem_take_of_lt hj hgt⟩ hfi

/-- The places of a walk, under the numbers of the objects that are met a second time. -/
def numbered (g : Graph) (walk : List (Tree.Place Ref Ref)) : List (Tree.Place (Option Nat) Nat) :=
  let refs := g.secondMeetings (visits walk)
  walk.map (Tree.Place.relabel (anchorOf? refs) fun q => (anchorOf? refs q).getD 0)

theorem numbered_eq_some {place : Tree.Place Ref Ref} (h : walk[i]? = some place) :
    (g.numbered walk)[i]? = some (place.relabel (anchorOf? (g.secondMeetings (visits walk)))
      fun q => (anchorOf? (g.secondMeetings (visits walk)) q).getD 0) := by
  rw [numbered, List.getElem?_map, h]
  rfl

/-- The object at a place under an anchor. -/
theorem place_of_numbered {n : Nat} {head : Head}
    (h : (g.numbered walk)[i]? = some (.full (some n) head)) :
    ∃ q, walk[i]? = some (.full q head) ∧
      anchorOf? (g.secondMeetings (visits walk)) q = some n := by
  rw [numbered, List.getElem?_map, Option.map_eq_some_iff] at h
  obtain ⟨place, hp, heq⟩ := h
  cases place with
  | full q head' =>
    simp only [Tree.Place.relabel, Tree.Place.full.injEq] at heq
    obtain ⟨hn, rfl⟩ := heq
    exact ⟨q, hp, hn⟩
  | back q => cases heq

/-- **A walk under its numbers is exact.** -/
theorem anchored_numbered (h : g.Walks [] [r] walk) :
    g.Anchored (visits walk) (g.numbered walk) where
  length_eq := by rw [numbered, visits, List.length_map, List.length_map]
  first i q hq hfirst := by
    refine ⟨_, numbered_eq_some (place_of_first h hq hfirst), ?_,
      fun _ => anchorOf?_secondMeetings⟩
    rw [anchorOf?, Option.isSome_map, List.isSome_idxOf?, mem_secondMeetings_iff]
  again i q hq hagain := by
    have hmem := mem_secondMeetings_iff.mpr ⟨hagain.1, two_le_count hq hagain.2⟩
    obtain ⟨j, n, hj, hfirst, hn⟩ := exists_first_of_mem hmem
    refine ⟨j, n, ?_, hj, hfirst, ?_, ?_⟩
    · obtain ⟨j', hlt, hj', hnot⟩ := exists_first hagain.2
      rwa [first_unique hagain.1 hj hj' hfirst fun hb => hnot hb.2]
    · rw [numbered_eq_some (place_of_first h hj hfirst), Tree.Place.relabel, hn]
    · rw [numbered_eq_some (place_of_again h hq hagain), Tree.Place.relabel, hn, Option.getD_some]
  numbers n := by
    constructor
    · rintro ⟨i, head, hi⟩
      obtain ⟨q, -, hn⟩ := place_of_numbered hi
      obtain ⟨hpos, hget⟩ := anchorOf?_secondMeetings.mp hn
      have := (List.getElem?_eq_some_iff.mp hget).1
      exact ⟨hpos, by omega⟩
    · rintro ⟨hpos, hle⟩
      obtain ⟨q, hget⟩ : ∃ q, (g.secondMeetings (visits walk))[n - 1]? = some q :=
        ⟨_, List.getElem?_eq_getElem (by omega)⟩
      obtain ⟨j, m, hj, hfirst, hm⟩ := exists_first_of_mem (List.mem_of_getElem? hget)
      have hn := anchorOf?_secondMeetings.mpr ⟨hpos, hget⟩
      exact ⟨j, _, by rw [numbered_eq_some (place_of_first h hj hfirst), Tree.Place.relabel, hn]⟩
  once i j n head head' hi hj := by
    obtain ⟨q, hp, hn⟩ := place_of_numbered hi
    obtain ⟨q', hp', hn'⟩ := place_of_numbered hj
    obtain ⟨-, hget⟩ := anchorOf?_secondMeetings.mp hn
    obtain ⟨-, hget'⟩ := anchorOf?_secondMeetings.mp hn'
    cases hget.symm.trans hget'
    obtain ⟨hq, hfirst⟩ := first_of_place h hp
    obtain ⟨hq', hfirst'⟩ := first_of_place h hp'
    have hs := (mem_secondMeetings_iff.mp (List.mem_of_getElem? hget)).1
    exact first_unique hs hq hq' hfirst hfirst'

end Written

/-- What is written is the walk under its numbers. -/
theorem places_annotate (g : Graph) (r : Ref) :
    places (annotate (g.spanning r)) = g.numbered (places (g.spanning r)) := by
  rw [numbered, ← anchored_eq_secondMeetings]
  exact places_relabel ..

/-- **Anchors are exact.** The walk from an object comes to an end, and there is one way to take it.
    What is written when the object is dumped has one place for every meeting of the walk: an object
    has an anchor if and only if it can be met again and is, its first place carries the anchor and
    the whole content, and every later place is an alias of that anchor. The anchors are numbered
    from one on, in the order of second meetings. Dumping comes to an end as well; it fails only
    over an integer with too many digits. -/
theorem anchors_are_exact (g : Graph) (r : Ref) :
    ∃ walk, g.Walks [] [r] walk ∧ (∀ walk', g.Walks [] [r] walk' → walk' = walk) ∧
      g.Anchored (visits walk) (places (annotate (g.spanning r))) ∧
      (g.dump r = .ok (Markup.print (annotate (g.spanning r))) ∨
        g.dump r = .error .noSuchValue ∧ ∃ p, g.Reaches r p ∧ ¬ g.Writable p) := by
  have hwalk := walks_spanning g r
  refine ⟨_, hwalk, fun _ => hwalk.unique, ?_, ?_⟩
  · rw [places_annotate]
    exact anchored_numbered hwalk
  · have hiff := @writable_spanning_iff g r
    rw [dump]
    cases hw : Markup.isWritable (g.spanning r) with
    | true => exact .inl rfl
    | false =>
      rw [hw] at hiff
      refine .inr ⟨rfl, ?_⟩
      simpa using hiff

/-- A list that holds another one twice, and itself. -/
example : places (annotate (spanning ⟨#[.list [1, 1, 0], .list []]⟩ 0)) =
    [.full (some 2) (.list 3), .full (some 1) (.list 0), .back 1, .back 2] := by decide

end Conform.Graph
