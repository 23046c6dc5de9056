import Conform.Graph
import Conform.Proofs.Markup.Filling

/-!
# Outlines of spelled records

The outline of an object that a record is spelled by is the outline of the record, with the pairs of
its mappings gathered (`outlineWithin_eq`). The parts of a node come behind it, so no object is
around itself, and there are never more objects around another than nodes in front of it.
-/

namespace Conform

open Markup

/-! ## 1. Outlines of records -/

namespace Record

theorem outline_list (items : List Record) :
    (Record.list items).value.outline = .list () (items.map fun r => r.value.outline) := by
  induction items with
  | nil => rfl
  | cons r rs ih =>
    exact congrArg (fun rest => Tree.list () (r.value.outline :: rest)) (Tree.list.inj ih).2

theorem outline_map (entries : List (Atom × Record)) :
    (Record.map entries).value.outline =
      .map () (entries.map fun e => (.atom () e.1, e.2.value.outline)) := by
  induction entries with
  | nil => rfl
  | cons e es ih =>
    exact congrArg (fun rest => Tree.map () ((.atom () e.1, e.2.value.outline) :: rest))
      (Tree.map.inj ih).2

theorem gatheredAll_eq (rs : List Record) : gatheredAll rs = rs.map gathered := by
  induction rs with
  | nil => rfl
  | cons r rs ih => exact congrArg (r.gathered :: ·) ih

theorem gatheredEntries_eq (es : List (Atom × Record)) :
    gatheredEntries es = es.map fun e => (e.1, e.2.gathered) := by
  induction es with
  | nil => rfl
  | cons e es ih => exact congrArg ((e.1, e.2.gathered) :: ·) ih

mutual

/-- A record is told by its outline. -/
theorem eq_of_outline : ∀ {r s : Record}, r.value.outline = s.value.outline → r = s
  | .atom a, .atom b => fun h => by
      cases h
      rfl
  | .list items, .list items' => fun h => by
      rw [outline_list, outline_list] at h
      exact congrArg Record.list (eq_of_outlines (Tree.list.inj h).2)
  | .map entries, .map entries' => fun h => by
      rw [outline_map, outline_map] at h
      exact congrArg Record.map (eq_of_outlineEntries (Tree.map.inj h).2)
  | .atom _, .list _ => fun h => nomatch h
  | .atom _, .map _ => fun h => nomatch h
  | .list _, .atom _ => fun h => nomatch h
  | .list _, .map _ => fun h => nomatch h
  | .map _, .atom _ => fun h => nomatch h
  | .map _, .list _ => fun h => nomatch h

theorem eq_of_outlines : ∀ {rs ss : List Record},
    (rs.map fun r => r.value.outline) = ss.map (fun r => r.value.outline) → rs = ss
  | [], [] => fun _ => rfl
  | r :: rs, s :: ss => fun h => by
      obtain ⟨hr, hrs⟩ := List.cons.inj h
      rw [eq_of_outline hr, eq_of_outlines hrs]
  | [], _ :: _ => fun h => nomatch h
  | _ :: _, [] => fun h => nomatch h

theorem eq_of_outlineEntries : ∀ {es fs : List (Atom × Record)},
    (es.map fun e => ((.atom () e.1, e.2.value.outline) : Outline × Outline)) =
      fs.map (fun e => (.atom () e.1, e.2.value.outline)) → es = fs
  | [], [] => fun _ => rfl
  | (k, r) :: es, (l, s) :: fs => fun h => by
      obtain ⟨hfirst, hes⟩ := List.cons.inj h
      obtain ⟨hk, hr⟩ := Prod.mk.inj hfirst
      cases hk
      have heq : r = s := eq_of_outline hr
      rw [heq, eq_of_outlineEntries hes]
  | [], _ :: _ => fun h => nomatch h
  | _ :: _, [] => fun h => nomatch h

end

end Record

/-! ## 2. Outlines of nodes -/

namespace Markup

variable {nodes : Array Node} {g : Graph} {there : NodeId → Prop}

/-- An object behind all those around it has the outline that it asks for. -/
theorem outlineWithin_of_free {around : List Ref} {id : Ref} (hlength : around.length ≤ id)
    (hfront : ∀ x ∈ around, x < id) (hsize : id < g.objects.size) :
    g.outlineWithin around id = match g.object id with
      | .atom a => .atom () a
      | .list items => .list () (items.map fun i => g.outlineWithin (id :: around) i)
      | .tuple items => .tuple () (items.map fun i => g.outlineWithin (id :: around) i)
      | .set items => .set () (items.map fun i => g.outlineWithin (id :: around) i)
      | .map entries => .map () (entries.map fun e =>
          (g.outlineWithin (id :: around) e.1, g.outlineWithin (id :: around) e.2)) := by
  have hnone : around.idxOf? id = none :=
    List.idxOf?_eq_none_iff.mpr fun h => Nat.lt_irrefl _ (hfront id h)
  have hroom : ¬ g.objects.size < around.length :=
    Nat.not_lt.mpr (Nat.le_trans hlength (Nat.le_of_lt hsize))
  rw [Graph.outlineWithin, hnone]
  exact if_neg hroom

theorem around_cons {around : List Ref} {id i : Ref} (hlength : around.length ≤ id)
    (hfront : ∀ x ∈ around, x < id) (hi : id < i) :
    (id :: around).length ≤ i ∧ ∀ x ∈ id :: around, x < i := by
  refine ⟨Nat.le_trans (Nat.succ_le_succ hlength) hi, fun x hx => ?_⟩
  rcases List.mem_cons.mp hx with rfl | hx
  · exact hi
  · exact Nat.lt_trans (hfront x hx) hi

mutual

/-- **What spells a record has its outline**, with the pairs of mappings gathered. -/
theorem outlineWithin_eq (hp : Pictures nodes g there) : ∀ {r : Record} {id : NodeId}
    {around : List Ref}, Spells nodes id r → there id → around.length ≤ id →
    (∀ x ∈ around, x < id) → g.outlineWithin around id = r.gathered.value.outline
  | .atom a, id, around => fun hr hid hlength hfront => by
      have hsize : id < g.objects.size := hp.size ▸ Spelled.lt_size ⟨_, hr⟩
      obtain ⟨n, hn, hholds⟩ := hr
      rw [outlineWithin_of_free hlength hfront hsize, hp.object id hid,
        (atomOf_of_holds hn hholds).2.1]
      rfl
  | .list items, id, around => fun hr hid hlength hfront => by
      have hsize : id < g.objects.size := hp.size ▸ Spelled.lt_size ⟨_, hr⟩
      obtain ⟨ids, hn, hall⟩ := hr
      have htarget : target nodes id = .list ids ∧ parts nodes id = ids := by
        rw [target, parts, hn]
        exact ⟨rfl, rfl⟩
      have hthere : ∀ i ∈ ids, there i := htarget.2 ▸ hp.closed id hid
      have hitems := outlines_eq hp hall hthere fun i hi => around_cons hlength hfront hi
      rw [outlineWithin_of_free hlength hfront hsize, hp.object id hid, htarget.1, Record.gathered,
        Record.outline_list, Record.gatheredAll_eq, List.map_map]
      exact congrArg (Tree.list ()) hitems
  | .map entries, id, around => fun hr hid hlength hfront => by
      have hsize : id < g.objects.size := hp.size ▸ Spelled.lt_size ⟨_, hr⟩
      obtain ⟨pairs, hn, hall⟩ := hr
      have htarget : target nodes id = .map (gatherPairs (sameNodes nodes) pairs) ∧
          parts nodes id = pairs.flatMap fun p => [p.1, p.2] := by
        rw [target, parts, hn]
        exact ⟨rfl, rfl⟩
      have hthere : ∀ p ∈ pairs, there p.1 ∧ there p.2 := fun p hp' => by
        have hparts := hp.closed id hid
        rw [htarget.2] at hparts
        exact ⟨hparts _ (List.mem_flatMap.mpr ⟨p, hp', List.mem_cons_self⟩),
          hparts _ (List.mem_flatMap.mpr ⟨p, hp', by simp⟩)⟩
      obtain ⟨hkeys, hpairs⟩ := outlinePairs_eq hp hall hthere fun i hi =>
        around_cons hlength hfront hi
      rw [outlineWithin_of_free hlength hfront hsize, hp.object id hid, htarget.1, Record.gathered,
        Record.outline_map, Record.gatheredEntries_eq]
      have hnodes : (gatherPairs (sameNodes nodes) pairs).map (fun p =>
            (atomOf nodes p.1, g.outlineWithin (id :: around) p.2)) =
          gatherPairs Atom.sameKey (pairs.map fun p =>
            (atomOf nodes p.1, g.outlineWithin (id :: around) p.2)) :=
        gatherPairs_map (f := atomOf nodes) (g := g.outlineWithin (id :: around)) (fun _ _ => rfl) pairs
      have hentries : (gatherPairs Atom.sameKey (entries.map fun e => (e.1, e.2.gathered))).map
            (fun e => (e.1, e.2.value.outline)) =
          gatherPairs Atom.sameKey ((entries.map fun e => (e.1, e.2.gathered)).map fun e =>
            (e.1, e.2.value.outline)) :=
        gatherPairs_map (f := fun k : Atom => k) (g := fun r : Record => r.value.outline)
          (fun _ _ => rfl) _
      refine congrArg (Tree.map ()) ?_
      calc (gatherPairs (sameNodes nodes) pairs).map (fun p =>
              (g.outlineWithin (id :: around) p.1, g.outlineWithin (id :: around) p.2))
          = ((gatherPairs (sameNodes nodes) pairs).map fun p =>
              (atomOf nodes p.1, g.outlineWithin (id :: around) p.2)).map
                fun p => (.atom () p.1, p.2) := by
            rw [List.map_map]
            refine List.map_congr_left fun p hmem => ?_
            obtain ⟨q, hq, heq⟩ := key_mem_gatherPairs hmem
            rw [← heq, hkeys q hq, heq]
            rfl
        _ = (gatherPairs Atom.sameKey (entries.map fun e =>
              (e.1, e.2.gathered.value.outline))).map fun p => (.atom () p.1, p.2) := by
            rw [hnodes, hpairs]
        _ = ((gatherPairs Atom.sameKey (entries.map fun e => (e.1, e.2.gathered))).map fun e =>
              (e.1, e.2.value.outline)).map fun p => (.atom () p.1, p.2) := by
            rw [hentries, List.map_map]
            rfl
        _ = (gatherPairs Atom.sameKey (entries.map fun e => (e.1, e.2.gathered))).map fun e =>
              (.atom () e.1, e.2.value.outline) := by
            rw [List.map_map]
            rfl

theorem outlines_eq (hp : Pictures nodes g there) {front : NodeId} {around : List Ref} :
    ∀ {rs : List Record} {ids : List NodeId}, SpellsAll nodes front ids rs → (∀ i ∈ ids, there i) →
    (∀ i, front < i → around.length ≤ i ∧ ∀ x ∈ around, x < i) →
    (ids.map fun i => g.outlineWithin around i) = rs.map fun r => r.gathered.value.outline
  | [], [] => fun _ _ _ => rfl
  | [], _ :: _ => fun h => h.elim
  | _ :: _, [] => fun h => h.elim
  | r :: rs, id :: ids => fun ⟨hid, hr, hrs⟩ hthere haround => by
      obtain ⟨hlength, hfront⟩ := haround id hid
      obtain ⟨hid', hids⟩ := List.forall_mem_cons.mp hthere
      rw [List.map_cons, List.map_cons, outlineWithin_eq hp hr hid' hlength hfront,
        outlines_eq hp hrs hids haround]

theorem outlinePairs_eq (hp : Pictures nodes g there) {front : NodeId} {around : List Ref} :
    ∀ {es : List (Atom × Record)} {pairs : List (NodeId × NodeId)},
    SpellsPairs nodes front pairs es → (∀ p ∈ pairs, there p.1 ∧ there p.2) →
    (∀ i, front < i → around.length ≤ i ∧ ∀ x ∈ around, x < i) →
    (∀ p ∈ pairs, g.outlineWithin around p.1 = .atom () (atomOf nodes p.1)) ∧
      (pairs.map fun p => (atomOf nodes p.1, g.outlineWithin around p.2)) =
        es.map fun e => (e.1, e.2.gathered.value.outline)
  | [], [] => fun _ _ _ => ⟨fun _ h => absurd h List.not_mem_nil, rfl⟩
  | [], _ :: _ => fun h => h.elim
  | _ :: _, [] => fun h => h.elim
  | (k, r) :: es, (i, j) :: pairs => fun ⟨⟨hi, n, hn, hholds⟩, ⟨hj, hr⟩, hes⟩ hthere haround => by
      obtain ⟨hthere', hmore⟩ := List.forall_mem_cons.mp hthere
      obtain ⟨hkeys, hpairs⟩ := outlinePairs_eq hp hes hmore haround
      have hatom := (atomOf_of_holds hn hholds).1
      have hkey : g.outlineWithin around i = .atom () k :=
        outlineWithin_eq hp (r := .atom k) ⟨n, hn, hholds⟩ hthere'.1 (haround i hi).1 (haround i hi).2
      refine ⟨List.forall_mem_cons.mpr ⟨?_, hkeys⟩, ?_⟩
      · rw [hkey, hatom]
      · rw [List.map_cons, List.map_cons, hatom,
          outlineWithin_eq hp hr hthere'.2 (haround j hj).1 (haround j hj).2, hpairs]

end

end Markup

end Conform
