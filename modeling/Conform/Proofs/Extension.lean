import Conform.Proofs.Invariance

/-!
# Valid collections under larger schemas, and smaller collections

A schema that declares more accepts what the smaller one accepts: a key of a valid record is the
name of a property already, so no further property has a say in it. Going back, a collection without
the further names is valid under the smaller schema. And since only the primary key has to be there,
a valid collection stays valid without some of its elements and some of their other pairs.
`validity_is_monotone` puts the three together.
-/

namespace Conform.Schema

/-! ## 1. Larger schemas -/

/-- A schema declares what another one declares, and perhaps further names. -/
structure Extends (s s' : Schema) : Prop where
  primaryKey : s'.primaryKey = s.primaryKey
  rules : ∀ p ∈ s.properties, ∃ p' ∈ s'.properties, SameRule SameKey p p'

/-- A property of the larger schema whose name the smaller one does not declare. -/
def Further (s s' : Schema) (p : Atom × Property) : Prop :=
  p ∈ s'.properties ∧ s.declares p.1 = false

/-- An object holds none of the further names. -/
def HoldsNoFurther (s s' : Schema) (g : Graph) (r : Ref) : Prop :=
  ∀ entries, g.object r = .map entries → ∀ e ∈ entries, ∀ key, g.atom? e.1 = some key →
    ∀ p, Further s s' p → p.1.sameKey key = false

section Larger

variable {s s' : Schema} {g : Graph} {r : Ref}

/-- **What conforms to a schema conforms to a larger one**: all its keys are declared by the smaller
    one, so the further declarations find nothing to complain about. -/
theorem Conforms.extend (h : s.Conforms g r) (hext : Extends s s')
    (hn' : Distinct Atom.sameKey s'.properties) : s'.Conforms g r := by
  obtain ⟨entries, hmap, hprimary⟩ := h.mapping
  refine ⟨⟨entries, hmap, fun name hname => hprimary name (hext.primaryKey ▸ hname)⟩,
    fun es hes p' hp' e he key hkey hsame => ?_, fun es hes e he key hkey => ?_⟩
  · obtain ⟨p, hp, hdeclared⟩ := h.declared es hes e he key hkey
    obtain ⟨q, hq, hname, htype⟩ := hext.rules p hp
    have hqp : q.1.sameKey p'.1 = true :=
      Atom.sameKey_trans (Atom.sameKey_symm hname) (Atom.sameKey_trans hdeclared hsame)
    cases hn'.eq_of_sameKey hq hp' hqp
    rw [← htype]
    exact h.typed es hes p hp e he key hkey (Atom.sameKey_symm hdeclared)
  · obtain ⟨p, hp, hdeclared⟩ := h.declared es hes e he key hkey
    obtain ⟨q, hq, hname, -⟩ := hext.rules p hp
    exact ⟨q, hq, Atom.sameKey_trans (Atom.sameKey_symm hname) hdeclared⟩

/-- What conforms to a larger schema and holds none of the further names conforms to the smaller
    one. -/
theorem Conforms.restrict (h : s'.Conforms g r) (hext : Extends s s')
    (hno : HoldsNoFurther s s' g r) : s.Conforms g r := by
  obtain ⟨entries, hmap, hprimary⟩ := h.mapping
  refine ⟨⟨entries, hmap, fun name hname => hprimary name (hext.primaryKey ▸ hname)⟩,
    fun es hes p hp e he key hkey hsame => ?_, fun es hes e he key hkey => ?_⟩
  · obtain ⟨q, hq, hname, htype⟩ := hext.rules p hp
    rw [htype]
    exact h.typed es hes q hq e he key hkey (Atom.sameKey_trans hsame hname)
  · obtain ⟨q, hq, hdeclared⟩ := h.declared es hes e he key hkey
    cases hfurther : s.declares q.1 with
    | true =>
      obtain ⟨p, hp, hsame⟩ := List.any_eq_true.mp hfurther
      exact ⟨p, hp, Atom.sameKey_trans hsame hdeclared⟩
    | false =>
      rw [hno es hes e he key hkey q ⟨hq, hfurther⟩] at hdeclared
      cases hdeclared

end Larger

/-! ## 2. Smaller collections -/

/-- A mapping is left over from another one: it has some of its pairs, and the primary key if that
    one does. -/
def LeftOver (s : Schema) (g g' : Graph) (r r' : Ref) : Prop :=
  ∃ entries entries', g.object r = .map entries ∧ g'.object r' = .map entries' ∧
    (∀ e' ∈ entries', ∃ e ∈ entries, SamePair SameKey g g' e e') ∧
    ∀ name, s.primaryKey = some name → (∃ e ∈ entries, g.atom? e.1 = some (.str name)) →
      ∃ e' ∈ entries', g'.atom? e'.1 = some (.str name)

/-- **What is left over from a record that conforms conforms.** -/
theorem Conforms.leftOver {s : Schema} {g g' : Graph} {r r' : Ref} (h : s.Conforms g r)
    (hleft : s.LeftOver g g' r r') : s.Conforms g' r' := by
  obtain ⟨entries, entries', hmap, hmap', hpairs, hkept⟩ := hleft
  obtain ⟨es, hes, hprimary⟩ := h.mapping
  cases hmap.symm.trans hes
  refine ⟨⟨entries', hmap', fun name hname => hkept name hname (hprimary name hname)⟩,
    fun es' hes' p hp e' he' key' hkey' hsame => ?_, fun es' hes' e' he' key' hkey' => ?_⟩
  all_goals
    cases hmap'.symm.trans hes'
    obtain ⟨e, he, ⟨key, a', hkey, ha', hkeys⟩, hvalue⟩ := hpairs e' he'
    cases hkey'.symm.trans ha'
  · have hholds := h.typed entries hmap p hp e he key hkey (Atom.sameKey_trans hkeys hsame)
    rw [← PropertyType.accepts_kind_iff] at hholds ⊢
    have hkind : (g.object e.2).kind = (g'.object e'.2).kind := hvalue.kind_eq
    rwa [← hkind]
  · obtain ⟨p, hp, hdeclared⟩ := h.declared entries hmap e he key hkey
    exact ⟨p, hp, Atom.sameKey_trans hdeclared hkeys⟩

/-! ## 3. Validity -/

/-- **Validity is monotone.** What is valid under a schema is valid under every larger one, and the
    other way round if no record holds a further name. What is left over from a valid collection,
    without some elements and some pairs, but with the primary key of every element that is left,
    is valid. -/
theorem validity_is_monotone {schemaText' text : List Char} {s s' : Schema} {d : Markup.Document}
    {items : List Ref} (hs' : compile schemaText' = .ok s') (hext : Extends s s')
    (hload : Markup.load text = .ok (some d)) (hroot : d.graph.object d.root = .list items) :
    (s.validate text = .ok () → s'.validate text = .ok ()) ∧
    (s'.validate text = .ok () → (∀ r ∈ items, HoldsNoFurther s s' d.graph r) →
      s.validate text = .ok ()) ∧
    ∀ text' d' items', Markup.load text' = .ok (some d') → d'.graph.object d'.root = .list items' →
      (∀ r' ∈ items', ∃ r ∈ items, s.LeftOver d.graph d'.graph r r') →
      s.validate text = .ok () → s.validate text' = .ok () := by
  rw [validate_of_load_iff hload hroot, validate_of_load_iff hload hroot]
  refine ⟨fun h r hr => (h r hr).extend hext (compile_distinct hs'),
    fun h hno r hr => (h r hr).restrict hext (hno r hr),
    fun text' d' items' hload' hroot' hleft h => ?_⟩
  rw [validate_of_load_iff hload' hroot']
  intro r' hr'
  obtain ⟨r, hr, hover⟩ := hleft r' hr'
  exact (h r hr).leftOver hover

/-- A schema with two properties, one of them the primary key. -/
def keyedSchema : List Char :=
  ("description: x\nused_by: []\nprimary_key: id\n" ++
    "properties: \x7bid: \x7btype: Integer\x7d, a: \x7btype: Array\x7d\x7d").toList

/-- The schema with a further property, in another order. -/
def extendedSchema : List Char :=
  ("description: x\nused_by: []\nprimary_key: id\n" ++
    "properties: \x7bt: \x7btype: String\x7d, a: \x7btype: Array\x7d, id: \x7btype: Fixnum\x7d\x7d").toList

/-- Two records, without the further property. -/
def twoRecords : List Char := "- \x7bid: 1, a: []\x7d\n- \x7bid: 2\x7d\n".toList

/-- The first of the records with nothing but its primary key. -/
def oneRecord : List Char := "- \x7bid: 1\x7d\n".toList

theorem oneRecord_is_valid : ∃ s s' d d',
    compile keyedSchema = .ok s ∧ compile extendedSchema = .ok s' ∧ Extends s s' ∧
    (∃ p, Further s s' p) ∧
    Markup.load twoRecords = .ok (some d) ∧ d.graph.object d.root = .list [1, 6] ∧
    (∀ r ∈ [1, 6], HoldsNoFurther s s' d.graph r) ∧
    Markup.load oneRecord = .ok (some d') ∧ s.LeftOver d.graph d'.graph 1 1 ∧
    s'.validate twoRecords = .ok () ∧ s.validate twoRecords = .ok () ∧
    s.validate oneRecord = .ok () := by
  have schemas : ∃ s ∈ (compile keyedSchema).toOption, ∃ s' ∈ (compile extendedSchema).toOption,
      (s.primaryKey = some (Text.ofString "id") ∧ s'.primaryKey = s.primaryKey) ∧
      (∀ p ∈ s.properties, ∃ p' ∈ s'.properties, SameRule SameKey p p') ∧
      (∀ p ∈ s'.properties, s.declares p.1 = false → p.1 = .str "t") ∧
      (∃ p ∈ s'.properties, s.declares p.1 = false) ∧ s'.validate twoRecords = .ok () := by
    decide +kernel
  have records : ∃ d ∈ (Markup.load twoRecords).toOption.join,
      ∃ d' ∈ (Markup.load oneRecord).toOption.join,
      (d.graph.object d.root = .list [1, 6] ∧ d'.graph.object d'.root = .list [1]) ∧
      (d.graph.object 1 = .map [(2, 3), (4, 5)] ∧ d.graph.object 6 = .map [(7, 8)] ∧
        d'.graph.object 1 = .map [(2, 3)]) ∧
      (∀ r ∈ [2, 4, 7], ∀ a ∈ d.graph.atom? r, (Atom.str "t").sameKey a = false) ∧
      (d.graph.atom? 2).isSome = true ∧ d.graph.atom? 2 = d'.graph.atom? 2 ∧
      (d.graph.atom? 3).isSome = true ∧ d.graph.atom? 3 = d'.graph.atom? 3 ∧
      d'.graph.atom? 2 = some (.str "id") := by decide +kernel
  obtain ⟨s, hs, s', hs', ⟨hkey, hkey'⟩, hrules, hnames, hfurther, hvalid'⟩ := schemas
  obtain ⟨d, hd, d', hd', ⟨hroot, hroot'⟩, ⟨hfirst, hsecond, hmap'⟩, hapart, hatom, hatoms, hvalue,
    hvalues, hid⟩ := records
  have hload := eq_ok_of_join hd
  have hload' := eq_ok_of_join hd'
  have hext : Extends s s' := ⟨hkey', hrules⟩
  have hno : ∀ r ∈ [1, 6], HoldsNoFurther s s' d.graph r := by
    intro r hr entries hmap e he key hheld p hp
    rw [hnames p hp.1 hp.2]
    rcases List.mem_pair.mp hr with rfl | rfl
    · cases hfirst.symm.trans hmap
      rcases List.mem_pair.mp he with rfl | rfl
      · exact hapart 2 (by decide) key hheld
      · exact hapart 4 (by decide) key hheld
    · cases hsecond.symm.trans hmap
      cases List.mem_singleton.mp he
      exact hapart 7 (by decide) key hheld
  have hleft : s.LeftOver d.graph d'.graph 1 1 := by
    refine ⟨_, _, hfirst, hmap', fun e' he' => ⟨(2, 3), by decide, ?_⟩, fun name hname _ => ?_⟩
    · cases List.mem_singleton.mp he'
      exact (samePair_of_atoms hatom hatoms hvalue hvalues).weaken
    · cases hkey.symm.trans hname
      exact ⟨(2, 3), by decide, hid⟩
  obtain ⟨extend, restrict, leave⟩ :=
    validity_is_monotone (eq_ok_of_toOption hs') hext hload hroot
  have hvalid := restrict hvalid' hno
  refine ⟨s, s', d, d', eq_ok_of_toOption hs, eq_ok_of_toOption hs', hext,
    hfurther.imp fun _ hp => hp, hload, hroot, hno, hload', hleft, extend hvalid, hvalid,
    leave oneRecord d' [1] hload' hroot' (fun r' hr' => ?_) hvalid⟩
  cases List.mem_singleton.mp hr'
  exact ⟨1, by decide, hleft⟩

end Conform.Schema
