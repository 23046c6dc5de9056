import Conform.Proofs.Reach

/-!
# Walks

A walk over a graph, depth first and without any bound on its depth (`Graph.Walks`): an object that
has been met before is referred to, any other one is written in full and what it holds is met next.
There is one way to walk (`Walks.unique`), and the places of a spanning tree are what the walk from
its object meets (`walks_spanning`).
-/

namespace Conform

/-! ## 1. What is written at a place -/

/-- The objects that can be met again: containers other than the empty tuple, dates and times. -/
inductive Object.Shareable : Object → Prop
  | list (items : List Ref) : Shareable (.list items)
  | tuple (first : Ref) (rest : List Ref) : Shareable (.tuple (first :: rest))
  | set (items : List Ref) : Shareable (.set items)
  | map (entries : List (Ref × Ref)) : Shareable (.map entries)
  | day (d : Day) : Shareable (.atom (.day d))
  | moment (m : Moment) : Shareable (.atom (.moment m))

theorem Object.hasIdentity_iff {o : Object} : o.hasIdentity = true ↔ o.Shareable := by
  constructor
  · intro h
    cases o with
    | atom a => cases a <;> first | constructor | cases h
    | tuple items => cases items <;> first | constructor | cases h
    | _ => constructor
  · rintro (items | ⟨first, rest⟩ | items | entries | d | m) <;> rfl

/-- The content of an object without its parts: a scalar, or how many items or pairs follow. -/
inductive Head where
  | atom (a : Atom)
  | list (items : Nat)
  | tuple (items : Nat)
  | set (items : Nat)
  | map (entries : Nat)
  deriving DecidableEq

/-- The content of an object without its parts. -/
def Object.head : Object → Head
  | .atom a => .atom a
  | .list items => .list items.length
  | .tuple items => .tuple items.length
  | .set items => .set items.length
  | .map entries => .map entries.length

/-- A place of a tree: a node with its label and its content, or a reference. -/
inductive Tree.Place (ι β : Type) where
  | full (label : ι) (head : Head)
  | back (ref : β)
  deriving DecidableEq

/-- The same place under another label or reference. -/
def Tree.Place.relabel {ι β κ γ : Type} (f : ι → κ) (g : β → γ) : Tree.Place ι β → Tree.Place κ γ
  | .full l h => .full (f l) h
  | .back r => .back (g r)

/-- The reference at a place, if there is one. -/
def Tree.Place.ref? {ι β : Type} : Tree.Place ι β → Option β
  | .full _ _ => none
  | .back r => some r

/-- The object at a place of a spanning tree. -/
def Tree.Place.object : Tree.Place Ref Ref → Ref
  | .full r _ => r
  | .back r => r

namespace Markup

variable {ι β κ γ : Type}

mutual

/-- The places of a tree, in the order in which they are written. -/
def places : Tree ι β → List (Tree.Place ι β)
  | .atom l a => [.full l (.atom a)]
  | .list l ts => .full l (.list ts.length) :: placesAll ts
  | .tuple l ts => .full l (.tuple ts.length) :: placesAll ts
  | .set l ts => .full l (.set ts.length) :: placesAll ts
  | .map l es => .full l (.map es.length) :: placesEntries es
  | .back r => [.back r]

/-- The places of some trees. -/
def placesAll : List (Tree ι β) → List (Tree.Place ι β)
  | [] => []
  | t :: ts => places t ++ placesAll ts

/-- The places of some pairs, each key before its value. -/
def placesEntries : List (Tree ι β × Tree ι β) → List (Tree.Place ι β)
  | [] => []
  | (k, v) :: es => places k ++ places v ++ placesEntries es

end

section Relabel

variable (f : ι → κ) (g : β → γ)

theorem length_relabelAll : ∀ ts : List (Tree ι β), (Tree.relabelAll f g ts).length = ts.length
  | [] => rfl
  | _ :: ts => congrArg (· + 1) (length_relabelAll ts)

theorem length_relabelEntries : ∀ es : List (Tree ι β × Tree ι β),
    (Tree.relabelEntries f g es).length = es.length
  | [] => rfl
  | _ :: es => congrArg (· + 1) (length_relabelEntries es)

mutual

theorem places_relabel : ∀ t : Tree ι β,
    places (t.relabel f g) = (places t).map (Tree.Place.relabel f g)
  | .atom _ _ => rfl
  | .list _ ts => by
      simp only [Tree.relabel, places, List.map_cons, length_relabelAll, placesAll_relabel ts]
      rfl
  | .tuple _ ts => by
      simp only [Tree.relabel, places, List.map_cons, length_relabelAll, placesAll_relabel ts]
      rfl
  | .set _ ts => by
      simp only [Tree.relabel, places, List.map_cons, length_relabelAll, placesAll_relabel ts]
      rfl
  | .map _ es => by
      simp only [Tree.relabel, places, List.map_cons, length_relabelEntries,
        placesEntries_relabel es]
      rfl
  | .back _ => rfl

theorem placesAll_relabel : ∀ ts : List (Tree ι β),
    placesAll (Tree.relabelAll f g ts) = (placesAll ts).map (Tree.Place.relabel f g)
  | [] => rfl
  | t :: ts => by
      simp only [Tree.relabelAll, placesAll, List.map_append, places_relabel t,
        placesAll_relabel ts]

theorem placesEntries_relabel : ∀ es : List (Tree ι β × Tree ι β),
    placesEntries (Tree.relabelEntries f g es) = (placesEntries es).map (Tree.Place.relabel f g)
  | [] => rfl
  | (k, v) :: es => by
      simp only [Tree.relabelEntries, placesEntries, List.map_append, places_relabel k,
        places_relabel v, placesEntries_relabel es]

end

end Relabel

mutual

theorem backRefs_eq : ∀ t : Tree ι β, backRefs t = (places t).filterMap Tree.Place.ref?
  | .atom _ _ => rfl
  | .list _ ts => backRefsAll_eq ts
  | .tuple _ ts => backRefsAll_eq ts
  | .set _ ts => backRefsAll_eq ts
  | .map _ es => backRefsEntries_eq es
  | .back _ => rfl

theorem backRefsAll_eq : ∀ ts : List (Tree ι β),
    backRefsAll ts = (placesAll ts).filterMap Tree.Place.ref?
  | [] => rfl
  | t :: ts => by
      rw [backRefsAll, placesAll, List.filterMap_append, backRefs_eq t, backRefsAll_eq ts]

theorem backRefsEntries_eq : ∀ es : List (Tree ι β × Tree ι β),
    backRefsEntries es = (placesEntries es).filterMap Tree.Place.ref?
  | [] => rfl
  | (k, v) :: es => by
      rw [backRefsEntries, placesEntries, List.filterMap_append, List.filterMap_append,
        backRefs_eq k, backRefs_eq v, backRefsEntries_eq es]

end

end Markup

namespace Graph

open Markup

/-! ## 2. The walk -/

/-- A walk over a graph, depth first: what is still to be met, and the places that come of it. An
    object that has been met before is referred to and not entered again; any other one is written
    in full, and what it holds is met next. -/
inductive Walks (g : Graph) : List Ref → List Ref → List (Tree.Place Ref Ref) → Prop
  | done {met : List Ref} : Walks g met [] []
  | again {met todo : List Ref} {r : Ref} {ps : List (Tree.Place Ref Ref)} :
      r ∈ met → Walks g met todo ps → Walks g met (r :: todo) (.back r :: ps)
  | enter {met todo : List Ref} {r : Ref} {ps : List (Tree.Place Ref Ref)} :
      r ∉ met → Walks g (g.note r met) ((g.object r).parts ++ todo) ps →
      Walks g met (r :: todo) (.full r (g.object r).head :: ps)

/-- There is one way to walk. -/
theorem Walks.unique {g : Graph} {met todo : List Ref} {ps ps' : List (Tree.Place Ref Ref)}
    (h : g.Walks met todo ps) (h' : g.Walks met todo ps') : ps' = ps := by
  induction h generalizing ps' with
  | done =>
    cases h'
    rfl
  | again hr _ ih =>
    cases h' with
    | again _ h => rw [ih h]
    | enter hn _ => exact absurd hr hn
  | enter hr _ ih =>
    cases h' with
    | again hm _ => exact absurd hm hr
    | enter _ h => rw [ih h]

theorem length_spanEach (walk : Ref → List Ref → Spanning × List Ref) : ∀ rs met : List Ref,
    (spanEach walk rs met).1.length = rs.length
  | [], _ => rfl
  | r :: rs, met => congrArg (· + 1) (length_spanEach walk rs (walk r met).2)

theorem length_spanPairs (walk : Ref → List Ref → Spanning × List Ref) :
    ∀ (es : List (Ref × Ref)) (met : List Ref), (spanPairs walk es met).1.length = es.length
  | [], _ => rfl
  | (k, v) :: es, met =>
    congrArg (· + 1) (length_spanPairs walk es (walk v (walk k met).2).2)

section Walks

variable {g : Graph} {n : Nat}
  (hwalk : ∀ r met, g.Met met → g.objects.size < n + met.length → ∀ todo ps,
    g.Walks (g.spanFrom n r met).2 todo ps →
      g.Walks met (r :: todo) (places (g.spanFrom n r met).1 ++ ps))
include hwalk

theorem walks_spanEach : ∀ rs met, g.Met met →
    (rs ≠ [] → g.objects.size < n + met.length) → ∀ todo ps,
    g.Walks (spanEach (g.spanFrom n) rs met).2 todo ps →
      g.Walks met (rs ++ todo) (placesAll (spanEach (g.spanFrom n) rs met).1 ++ ps)
  | [], _ => fun _ _ _ _ h => h
  | r :: rs, met => fun hm hn todo ps h => by
      have hn := hn (List.cons_ne_nil r rs)
      have tour := tour_spanFrom n r met hm hn
      have hlen := tour.grows.length_le
      have hrest := walks_spanEach rs _ tour.apart (fun _ => by omega) todo ps h
      rw [spanEach, placesAll, List.append_assoc]
      exact hwalk r met hm hn _ _ hrest

theorem walks_spanPairs : ∀ (es : List (Ref × Ref)) met, g.Met met →
    (es ≠ [] → g.objects.size < n + met.length) → ∀ todo ps,
    g.Walks (spanPairs (g.spanFrom n) es met).2 todo ps →
      g.Walks met ((es.flatMap fun e => [e.1, e.2]) ++ todo)
        (placesEntries (spanPairs (g.spanFrom n) es met).1 ++ ps)
  | [], _ => fun _ _ _ _ h => h
  | (k, v) :: es, met => fun hm hn todo ps h => by
      have hn := hn (List.cons_ne_nil _ es)
      have ktour := tour_spanFrom n k met hm hn
      have hklen := ktour.grows.length_le
      have vtour := tour_spanFrom n v _ ktour.apart (by omega)
      have hvlen := vtour.grows.length_le
      have hrest := walks_spanPairs es _ vtour.apart (fun _ => by omega) todo ps h
      have hv := hwalk v _ ktour.apart (by omega) _ _ hrest
      rw [spanPairs, placesEntries, List.append_assoc, List.append_assoc]
      exact hwalk k met hm hn _ _ hv

/-- What an object holds is met next, behind the object itself. -/
theorem walks_spanObject (r : Ref) {met : List Ref} (hm : g.Met met) : ∀ o : Object,
    (o.parts ≠ [] → g.objects.size < n + met.length) →
    ∃ qs, places (spanObject (g.spanFrom n) r met o).1 = .full r o.head :: qs ∧
      ∀ todo ps, g.Walks (spanObject (g.spanFrom n) r met o).2 todo ps →
        g.Walks met (o.parts ++ todo) (qs ++ ps)
  | .atom _, _ => ⟨[], rfl, fun _ _ h => h⟩
  | .list items, hn => by
      refine ⟨_, ?_, walks_spanEach hwalk items met hm hn⟩
      rw [spanObject, places, length_spanEach]
      rfl
  | .tuple items, hn => by
      refine ⟨_, ?_, walks_spanEach hwalk items met hm hn⟩
      rw [spanObject, places, length_spanEach]
      rfl
  | .set items, hn => by
      refine ⟨_, ?_, walks_spanEach hwalk items met hm hn⟩
      rw [spanObject, places, length_spanEach]
      rfl
  | .map entries, hn => by
      have hn' : entries ≠ [] → g.objects.size < n + met.length := by
        cases entries with
        | nil => exact fun hne => absurd rfl hne
        | cons e es => exact fun _ => hn (List.cons_ne_nil _ _)
      refine ⟨_, ?_, walks_spanPairs hwalk entries met hm hn'⟩
      rw [spanObject, places, length_spanPairs]
      rfl

end Walks

/-- The walk with a bounded depth is the walk, as long as the bound and what has been met are
    together more than the objects. -/
theorem walks_spanFrom {g : Graph} : ∀ (n : Nat) (r : Ref) (met : List Ref), g.Met met →
    g.objects.size < n + met.length → ∀ todo ps, g.Walks (g.spanFrom n r met).2 todo ps →
      g.Walks met (r :: todo) (places (g.spanFrom n r met).1 ++ ps)
  | 0, _, met => fun hm hn => by
      have := hm.length_le
      omega
  | n + 1, r, met => fun hm hn todo ps => by
      by_cases hr : r ∈ met
      · rw [spanFrom_again (hm.2 r hr) hr]
        exact .again hr
      · rw [spanFrom_enter fun _ => hr]
        -- An object without identity is not noted, but holds nothing that would need the bound.
        have hnote : g.Met (g.note r met) ∧
            ((g.object r).parts ≠ [] → g.objects.size < n + (g.note r met).length) := by
          rw [note]
          cases hid : (g.object r).hasIdentity with
          | false => exact ⟨hm, fun hne => absurd (parts_eq_nil hid) hne⟩
          | true =>
            refine ⟨hm.cons hr hid, fun _ => ?_⟩
            rw [if_pos rfl, List.length_cons]
            omega
        obtain ⟨qs, hqs, hwalks⟩ := walks_spanObject (walks_spanFrom n) r hnote.1 _ hnote.2
        rw [hqs]
        exact fun h => .enter hr (hwalks todo ps h)

/-- **A spanning tree is the walk from its object**, which comes to an end. -/
theorem walks_spanning (g : Graph) (r : Ref) : g.Walks [] [r] (places (g.spanning r)) := by
  have none : g.Met [] := ⟨List.nodup_nil, fun q hq => absurd hq List.not_mem_nil⟩
  have := walks_spanFrom (g.objects.size + 1) r [] none (Nat.lt_succ_self _) [] [] .done
  rwa [List.append_nil] at this

end Graph

end Conform
