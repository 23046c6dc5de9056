import Conform.Proofs.Settling

/-!
# What is said about a schema document

The report about a document that declares properties is the lines about its own fields, and behind
them one block for every property. This file says what each part depends on. The lines about the
document look at three of its fields, and at the names of the properties only to find the primary
key among them (`topLines_congr`); a block looks at the name of its property and at three fields of
its criteria (`blockLines_congr`). So no part hides another one: with one property mended, its block
is gone and all other lines stay (`reports_are_local`).
-/

namespace Conform

/-! ## 1. What the check sees of a value -/

theorem Atom.eq_of_shown {a b : Atom} (hkind : a.kind = b.kind) (hshown : a.shown? = b.shown?)
    (ha : a.kind = .null ∨ a.kind = .boolean ∨ a.kind = .string) : b = a := by
  cases a with
  | null => cases b <;> first | rfl | cases hkind
  | bool x =>
    cases b with
    | bool y =>
      revert hshown
      cases x <;> cases y <;> decide
    | _ => cases hkind
  | str t =>
    cases b with
    | str u => exact congrArg Atom.str (Option.some.inj hshown).symm
    | _ => cases hkind
  | _ => simp [Atom.kind] at ha

namespace Graph

/-- An object as a report names it, if it is a scalar and can be shown. -/
def shown? (g : Graph) (r : Ref) : Option Text :=
  (g.atom? r).bind Atom.shown?

/-- What an object looks like: its kind, and how it is shown. -/
def look (g : Graph) (r : Ref) : Kind × Option Text :=
  (g.kind r, g.shown? r)

/-- What two mappings hold under a name looks alike, or neither holds anything. -/
def AlikeUnder (name : Text) (g : Graph) (r : Ref) (g' : Graph) (r' : Ref) : Prop :=
  (∀ v, g.Field r name v → ∃ v', g'.Field r' name v' ∧ g.look v = g'.look v') ∧
    ∀ v', g'.Field r' name v' → ∃ v, g.Field r name v ∧ g.look v = g'.look v'

theorem kind_eq_hash_iff {g : Graph} {r : Ref} :
    g.kind r = .hash ↔ ∃ entries, g.object r = .map entries := by
  unfold kind
  cases g.object r with
  | atom a => cases a <;> simp [Object.kind, Atom.kind]
  | _ => simp [Object.kind]

/-- Null, truth values and texts that look alike are the same. -/
theorem object_eq_of_look {g g' : Graph} {v v' : Ref} {a : Atom} (h : g.look v = g'.look v')
    (ho : g.object v = .atom a) (ha : a.kind = .null ∨ a.kind = .boolean ∨ a.kind = .string) :
    g'.object v' = .atom a := by
  obtain ⟨hkind, hshown⟩ := Prod.mk.inj h
  simp only [kind, shown?, atom?, ho, Object.kind, Option.bind_some] at hkind hshown
  cases ho' : g'.object v' with
  | atom b =>
    rw [ho'] at hkind hshown
    exact congrArg Object.atom (Atom.eq_of_shown hkind hshown ha)
  | _ =>
    rw [ho'] at hkind
    simp [hkind] at ha

end Graph

namespace Schema

/-! ## 2. The parts of a report -/

/-- The lines about a schema document with these fields and properties, before those about its
    properties. -/
def topLines (g : Graph) (fields entries : List (Ref × Ref)) : List Text :=
  checkFields g (pairsOf g fields) requiredFields optionalFields ++
    checkPrimaryKey g (pairsOf g fields) (pairsOf g entries)

/-- What stands above the lines about a property. -/
def blockName (name : Text) : Text :=
  Text.ofString "malformed property " ++ name ++ Text.ofString ":"

/-- The block about a property, if there is something to say. -/
def blockLines (g : Graph) (e : Ref × Ref) : List Text :=
  match checkCriteria g e.2 with
  | [] => []
  | lines => blockName ((g.shown? e.1).getD []) :: lines.map (indentation ++ ·)

/-- A text is a document with these fields, among them these properties, whose names can be
    shown. -/
structure Declaration (text : List Char) (d : Markup.Document) (fields entries : List (Ref × Ref)) :
    Prop where
  load : Markup.load text = .ok (some d)
  root : d.graph.object d.root = .map fields
  properties : ∃ p, d.graph.Field d.root "properties" p ∧ d.graph.object p = .map entries
  shown : ∀ e ∈ entries, d.graph.Writable e.1

/-- The fields of a schema document are well formed: a text as description, a list of users and, if
    at all, a name of a property as primary key. -/
structure IsTop (g : Graph) (r : Ref) (entries : List (Ref × Ref)) : Prop where
  description : ∃ v t, g.Field r "description" v ∧ g.object v = .atom (.str t)
  usedBy : ∃ v items, g.Field r "used_by" v ∧ g.object v = .list items
  primaryKey : ∀ v, g.Field r "primary_key" v → ∃ t, g.object v = .atom (.str t) ∧
    ∃ e ∈ entries, g.atom? e.1 = some (.str t)

/-- Two documents agree above their properties: three fields look alike, and the primary keys name a
    property both or neither. -/
structure SameTop (g : Graph) (r : Ref) (entries : List (Ref × Ref)) (g' : Graph) (r' : Ref)
    (entries' : List (Ref × Ref)) : Prop where
  fields : ∀ f ∈ requiredFields ++ optionalFields, Graph.AlikeUnder f.1 g r g' r'
  names : ∀ v v', g.Field r "primary_key" v → g'.Field r' "primary_key" v' →
    (Names g entries v ↔ Names g' entries' v')

/-- Two properties agree: their names are shown in the same way, and their criteria are of the same
    kind with three fields that look alike. -/
structure SameProperty (g g' : Graph) (e e' : Ref × Ref) : Prop where
  name : g.shown? e.1 = g'.shown? e'.1
  kind : g.kind e.2 = g'.kind e'.2
  fields : ∀ f ∈ requiredCriteria ++ optionalCriteria, Graph.AlikeUnder f.1 g e.2 g' e'.2

/-- The block about a property: nothing exactly if its criteria are well formed, else a heading with
    its name and at least one line, each of them indented. -/
structure IsBlockOf (g : Graph) (e : Ref × Ref) (block : List Text) : Prop where
  empty : block = [] ↔ IsCriteria g e.2
  heading : ¬ IsCriteria g e.2 → ∃ name lines, g.shown? e.1 = some name ∧ lines ≠ [] ∧
    block = blockName name :: lines.map (indentation ++ ·)

/-! ## 3. Fields that look alike -/

theorem isUnset_of_look {g g' : Graph} {v v' : Ref} (h : g.look v = g'.look v')
    (hunset : IsUnset g v) : IsUnset g' v' :=
  hunset.imp (Graph.object_eq_of_look h · (.inl rfl)) (Graph.object_eq_of_look h · (.inr (.inl rfl)))

section Alike

variable {g g' : Graph} (hg : g.Keyed) (hg' : g'.Keyed)
include hg hg'

variable {r r' : Ref} {record record' : List (Atom × Ref)}
  (h : g.record? r = some record) (h' : g'.record? r' = some record')
include h h'

/-- Under a name, mappings look alike exactly if lookups find what looks alike. -/
theorem alikeUnder_iff {name : Text} : Graph.AlikeUnder name g r g' r' ↔
    (field? record name).map g.look = (field? record' name).map g'.look := by
  simp only [Graph.AlikeUnder, ← Graph.field?_eq_some_iff hg h, ← Graph.field?_eq_some_iff hg' h']
  cases field? record name <;> cases field? record' name <;> simp

/-- What is made of a field alone, and of nothing if it is not there. -/
theorem presentField_congr {f : Text × Kind} (absent : List Text)
    (halike : Graph.AlikeUnder f.1 g r g' r') :
    (match field? record f.1 with
      | some value => presentField g f.1 f.2 value
      | none => absent) =
    match field? record' f.1 with
      | some value => presentField g' f.1 f.2 value
      | none => absent := by
  have hlooks := (alikeUnder_iff hg hg' h h').mp halike
  cases hv : field? record f.1 with
  | none =>
    rw [hv, Option.map_none, eq_comm, Option.map_eq_none_iff] at hlooks
    rw [hlooks]
  | some v =>
    rw [hv, Option.map_some, eq_comm] at hlooks
    obtain ⟨v', hv', hlook⟩ := Option.map_eq_some_iff.mp hlooks
    rw [hv']
    dsimp only
    rw [presentField, presentField, (Prod.mk.inj hlook).1]

theorem checkFields_congr {required optional : List (Text × Kind)}
    (halike : ∀ f ∈ required ++ optional, Graph.AlikeUnder f.1 g r g' r') :
    checkFields g record required optional = checkFields g' record' required optional := by
  have hrequired : ∀ f ∈ required, requiredField g record f = requiredField g' record' f :=
    fun f hf => presentField_congr hg hg' h h' _ (halike f (List.mem_append_left _ hf))
  have hoptional : ∀ f ∈ optional, optionalField g record f = optionalField g' record' f :=
    fun f hf => presentField_congr hg hg' h h' _ (halike f (List.mem_append_right _ hf))
  rw [checkFields, checkFields, List.flatMap_congr hrequired, List.flatMap_congr hoptional]

theorem textField?_congr {name : Text} (halike : Graph.AlikeUnder name g r g' r') :
    textField? g record name = textField? g' record' name := by
  ext t
  rw [textField?_eq_some_iff hg h, textField?_eq_some_iff hg' h']
  constructor
  · rintro ⟨v, hv, ht⟩
    obtain ⟨v', hv', hlook⟩ := halike.1 v hv
    exact ⟨v', hv', Graph.object_eq_of_look hlook ht (.inr (.inr rfl))⟩
  · rintro ⟨v', hv', ht⟩
    obtain ⟨v, hv, hlook⟩ := halike.2 v' hv'
    exact ⟨v, hv, Graph.object_eq_of_look hlook.symm ht (.inr (.inr rfl))⟩

omit hg hg' h h' in
theorem unknownType_eq : unknownType g record =
    match textField? g record "type" with
    | some name =>
      if (PropertyType.resolve? name).isNone then
        [Text.ofString "type: unknown type " ++ name ++ Text.ofString ", should be one of " ++
          declaredNames]
      else []
    | none => [] := by
  unfold unknownType textField?
  cases (field? record "type").bind g.atom? with
  | none => rfl
  | some a => cases a <;> rfl

omit hg hg' h h' in
/-- There is one thing to say about a primary key. -/
theorem checkPrimaryKey_cases (g : Graph) (record properties : List (Atom × Ref)) :
    checkPrimaryKey g record properties = [] ∨
      checkPrimaryKey g record properties = [Text.ofString "missing primary_key: property"] := by
  unfold checkPrimaryKey
  cases field? record "primary_key" with
  | none => exact .inl rfl
  | some v => exact ite_eq_or_eq _ _ _

theorem checkPrimaryKey_congr {p p' : Ref} {entries entries' : List (Ref × Ref)}
    (hp : g.object p = .map entries) (hp' : g'.object p' = .map entries')
    (halike : Graph.AlikeUnder "primary_key" g r g' r')
    (hnames : ∀ v v', g.Field r "primary_key" v → g'.Field r' "primary_key" v' →
      (Names g entries v ↔ Names g' entries' v')) :
    checkPrimaryKey g record (pairsOf g entries) =
      checkPrimaryKey g' record' (pairsOf g' entries') := by
  have hnil : checkPrimaryKey g record (pairsOf g entries) = [] ↔
      checkPrimaryKey g' record' (pairsOf g' entries') = [] := by
    rw [checkPrimaryKey_pairsOf_iff hg h hp, checkPrimaryKey_pairsOf_iff hg' h' hp']
    constructor
    · intro hall v' hv'
      obtain ⟨v, hv, hlook⟩ := halike.2 v' hv'
      exact (hall v hv).imp (isUnset_of_look hlook) (hnames v v' hv hv').mp
    · intro hall v hv
      obtain ⟨v', hv', hlook⟩ := halike.1 v hv
      exact (hall v' hv').imp (isUnset_of_look hlook.symm) (hnames v v' hv hv').mpr
  rcases checkPrimaryKey_cases g record (pairsOf g entries) with he | he
  · rw [he, hnil.mp he]
  · rcases checkPrimaryKey_cases g' record' (pairsOf g' entries') with he' | he'
    · rw [he', hnil.mpr he']
    · rw [he, he']

end Alike

/-! ## 4. What each part depends on -/

section Parts

variable {g g' : Graph} (hg : g.Keyed) (hg' : g'.Keyed)
include hg hg'

/-- **The lines about a document depend on three of its fields**, and on the names of its properties
    only as far as the primary key is one of them. -/
theorem topLines_congr {r r' p p' : Ref} {fields entries fields' entries' : List (Ref × Ref)}
    (hr : g.object r = .map fields) (hr' : g'.object r' = .map fields')
    (hp : g.object p = .map entries) (hp' : g'.object p' = .map entries')
    (h : SameTop g r entries g' r' entries') :
    topLines g fields entries = topLines g' fields' entries' := by
  have hrecord : g.record? r = some (pairsOf g fields) := record?_of_map hr
  have hrecord' : g'.record? r' = some (pairsOf g' fields') := record?_of_map hr'
  have hkey : Graph.AlikeUnder "primary_key" g r g' r' :=
    h.fields ("primary_key", .string) (by decide)
  rw [topLines, topLines, checkFields_congr hg hg' hrecord hrecord' h.fields,
    checkPrimaryKey_congr hg hg' hrecord hrecord' hp hp' hkey h.names]

theorem checkCriteria_congr {c c' : Ref} (hkind : g.kind c = g'.kind c')
    (hfields : ∀ f ∈ requiredCriteria ++ optionalCriteria, Graph.AlikeUnder f.1 g c g' c') :
    checkCriteria g c = checkCriteria g' c' := by
  have hsome : (g.record? c).isSome = true ↔ (g'.record? c').isSome = true := by
    rw [Graph.record?_isSome_iff, Graph.record?_isSome_iff, ← Graph.kind_eq_hash_iff,
      ← Graph.kind_eq_hash_iff, hkind]
  unfold checkCriteria
  cases h : g.record? c with
  | none =>
    cases h' : g'.record? c' with
    | none => rw [hkind]
    | some record' => simp [h, h'] at hsome
  | some record =>
    cases h' : g'.record? c' with
    | none => simp [h, h'] at hsome
    | some record' =>
      dsimp only
      rw [checkFields_congr hg hg' h h' hfields, unknownType_eq, unknownType_eq,
        textField?_congr hg hg' h h' (hfields ("type", .string) (by decide))]

/-- **A block depends on the name of its property, and on three fields of its criteria.** -/
theorem blockLines_congr {e e' : Ref × Ref} (h : SameProperty g g' e e') :
    blockLines g e = blockLines g' e' := by
  rw [blockLines, blockLines, checkCriteria_congr hg hg' h.kind h.fields, h.name]

end Parts

/-! ## 5. The report as a whole -/

section Report

variable {g : Graph} {entries : List (Ref × Ref)}

theorem isBlockOf_blockLines (hg : g.Keyed) {e : Ref × Ref} {name : Text}
    (hname : g.shown? e.1 = some name) : IsBlockOf g e (blockLines g e) := by
  have hnil := checkCriteria_eq_nil_iff hg (r := e.2)
  unfold blockLines
  cases hlines : checkCriteria g e.2 with
  | nil => exact ⟨iff_of_true rfl (hnil.mp hlines), fun hno => absurd (hnil.mp hlines) hno⟩
  | cons line lines =>
    have hno : ¬ IsCriteria g e.2 := fun hcriteria => by
      rw [hnil.mpr hcriteria] at hlines
      cases hlines
    refine ⟨iff_of_false (List.cons_ne_nil _ _) hno, fun _ => ?_⟩
    exact ⟨name, line :: lines, hname, List.cons_ne_nil _ _, by rw [hname]; rfl⟩

/-- A property is reported in its block. -/
theorem checkProperty_eq {e : Ref × Ref} {key : Atom} {name : Text} (hkey : g.atom? e.1 = some key)
    (hname : key.shown? = some name) :
    ∃ report, checkProperty g (key, e.2) = .ok report ∧ report.lines = blockLines g e := by
  unfold checkProperty blockLines
  cases checkCriteria g e.2 with
  | nil => exact ⟨_, rfl, rfl⟩
  | cons line lines =>
    refine ⟨_, by rw [hname], ?_⟩
    rw [Graph.shown?, hkey, Option.bind_some, hname]
    rfl

theorem checkProperties_eq (hatoms : ∀ e ∈ entries, ∃ key, g.atom? e.1 = some key)
    (hshown : ∀ e ∈ entries, g.Writable e.1) :
    checkProperties g (pairsOf g entries) = .ok (entries.flatMap (blockLines g)) := by
  induction entries with
  | nil => rfl
  | cons e entries ih =>
    obtain ⟨⟨key, hkey⟩, hatoms⟩ := List.forall_mem_cons.mp hatoms
    obtain ⟨hwritable, hshown⟩ := List.forall_mem_cons.mp hshown
    obtain ⟨name, hname⟩ := Option.isSome_iff_exists.mp
      (Atom.shown?_isSome_iff.mpr ((Graph.writable_iff hkey).mp hwritable))
    obtain ⟨report, hreport, hlines⟩ := checkProperty_eq hkey hname
    have hpair : ((g.atom? e.1).getD .null, e.2) = (key, e.2) := by rw [hkey]; rfl
    rw [pairsOf, List.map_cons, hpair, checkProperties, hreport, ok_bind]
    have hrest : checkProperties g (entries.map fun e => ((g.atom? e.1).getD .null, e.2)) = _ :=
      ih hatoms hshown
    rw [hrest, ok_bind, hlines, List.flatMap_cons]
    rfl

theorem isTop_iff (hg : g.Keyed) {r p : Ref} {fields : List (Ref × Ref)}
    (hr : g.object r = .map fields) (hp : g.object p = .map entries) :
    topLines g fields entries = [] ↔ IsTop g r entries := by
  have hrecord : g.record? r = some (pairsOf g fields) := record?_of_map hr
  have hproperties : g.record? p = some (pairsOf g entries) := record?_of_map hp
  simp only [topLines, checkFields, requiredFields, optionalFields, List.flatMap_cons,
    List.flatMap_nil, List.append_nil, List.append_eq_nil_iff, requiredField_eq_nil_iff hg hrecord,
    optionalField_eq_nil_iff hg hrecord, Graph.kind_eq_string_iff, Graph.kind_eq_array_iff]
  constructor
  · rintro ⟨⟨⟨⟨v, hv, t, ht⟩, u, hu, items, hitems⟩, htext⟩, hprimary⟩
    have hkeys := (checkPrimaryKey_eq_nil_iff hg hrecord hp hproperties htext).mp hprimary
    refine ⟨⟨v, t, hv, ht⟩, ⟨u, items, hu, hitems⟩, fun w hw => ?_⟩
    obtain ⟨key, hkey⟩ := htext w hw
    exact ⟨key, hkey, hkeys w key hw hkey⟩
  · rintro ⟨⟨v, t, hv, ht⟩, ⟨u, items, hu, hitems⟩, hprimary⟩
    have htext : ∀ w, g.Field r "primary_key" w → ∃ key, g.object w = .atom (.str key) :=
      fun w hw => (hprimary w hw).imp fun _ hkey => hkey.1
    refine ⟨⟨⟨⟨v, hv, t, ht⟩, u, hu, items, hitems⟩, htext⟩,
      (checkPrimaryKey_eq_nil_iff hg hrecord hp hproperties htext).mpr fun w key hw hkey => ?_⟩
    obtain ⟨key', hkey', hnamed⟩ := hprimary w hw
    cases hkey.symm.trans hkey'
    exact hnamed

/-- The report about a document that declares properties is the lines about its fields and then the
    blocks about the properties. -/
theorem check_eq {text : List Char} {d : Markup.Document} {fields : List (Ref × Ref)}
    (h : Declaration text d fields entries) :
    check d.graph d.root = .ok
      { lines := topLines d.graph fields entries ++ entries.flatMap (blockLines d.graph) } := by
  have hg := Markup.load_keyed h.load
  obtain ⟨p, hp, hmap⟩ := h.properties
  have hrecord : d.graph.record? d.root = some (pairsOf d.graph fields) := record?_of_map h.root
  have hproperties : d.graph.record? p = some (pairsOf d.graph entries) := record?_of_map hmap
  have hfield := (Graph.field?_eq_some_iff hg hrecord).mpr hp
  have hkind : d.graph.kind p ≠ .null := by
    rw [Graph.kind, hmap]
    exact fun e => by cases e
  have hblocks := checkProperties_eq (hg p entries hmap).1 h.shown
  simp only [check, hrecord, hfield, if_neg hkind, hproperties, hblocks, ok_bind]
  rfl

theorem Declaration.exists_shown {text : List Char} {d : Markup.Document}
    {fields : List (Ref × Ref)} (h : Declaration text d fields entries) {e : Ref × Ref}
    (he : e ∈ entries) : ∃ name, d.graph.shown? e.1 = some name := by
  obtain ⟨p, -, hmap⟩ := h.properties
  obtain ⟨key, hkey⟩ := (Markup.load_keyed h.load p entries hmap).1 e he
  rw [Graph.shown?, hkey]
  exact Option.isSome_iff_exists.mp
    (Atom.shown?_isSome_iff.mpr ((Graph.writable_iff hkey).mp (h.shown e he)))

end Report

/-- **Reports about schema documents are complete and local.** The report about a document that
    declares properties is the lines about its own fields, of which there are none exactly if these
    are well formed, and then one block for every property, which is empty exactly if its criteria
    are. Documents that agree above their properties have the same lines about their fields, and
    properties that agree have the same block. So where two documents differ in one property only,
    which is well formed in the second one, the second report is the first one without the block of
    that property. -/
theorem reports_are_local {text text' : List Char} {d d' : Markup.Document}
    {fields entries fields' entries' : List (Ref × Ref)} (h : Declaration text d fields entries)
    (h' : Declaration text' d' fields' entries') :
    check d.graph d.root = .ok
      { lines := topLines d.graph fields entries ++ entries.flatMap (blockLines d.graph) } ∧
    (topLines d.graph fields entries = [] ↔ IsTop d.graph d.root entries) ∧
    (∀ e ∈ entries, IsBlockOf d.graph e (blockLines d.graph e)) ∧
    (SameTop d.graph d.root entries d'.graph d'.root entries' →
      topLines d.graph fields entries = topLines d'.graph fields' entries') ∧
    (∀ e e', SameProperty d.graph d'.graph e e' → blockLines d.graph e = blockLines d'.graph e') ∧
    ∀ front e back front' e' back',
      entries = front ++ e :: back → entries' = front' ++ e' :: back' →
      SameTop d.graph d.root entries d'.graph d'.root entries' →
      List.Forall₂ (SameProperty d.graph d'.graph) front front' →
      List.Forall₂ (SameProperty d.graph d'.graph) back back' →
      IsCriteria d'.graph e'.2 →
      ∃ before behind,
        check d.graph d.root = .ok { lines := before ++ blockLines d.graph e ++ behind } ∧
        check d'.graph d'.root = .ok { lines := before ++ behind } := by
  have hg := Markup.load_keyed h.load
  have hg' := Markup.load_keyed h'.load
  obtain ⟨p, -, hmap⟩ := h.properties
  obtain ⟨p', -, hmap'⟩ := h'.properties
  have htop := topLines_congr hg hg' h.root h'.root hmap hmap'
  have hblocks : ∀ {l l'}, List.Forall₂ (SameProperty d.graph d'.graph) l l' →
      l.flatMap (blockLines d.graph) = l'.flatMap (blockLines d'.graph) := fun {l l'} hsame => by
    induction hsame with
    | nil => rfl
    | cons he _ ih => rw [List.flatMap_cons, List.flatMap_cons, blockLines_congr hg hg' he, ih]
  refine ⟨check_eq h, isTop_iff hg h.root hmap, fun e he => ?_, htop,
    fun e e' => blockLines_congr hg hg', ?_⟩
  · obtain ⟨name, hname⟩ := h.exists_shown he
    exact isBlockOf_blockLines hg hname
  · rintro front e back front' e' back' rfl rfl hsame hfront hback hcriteria
    obtain ⟨name', hname'⟩ := h'.exists_shown (e := e') (by simp)
    have hgone : blockLines d'.graph e' = [] := (isBlockOf_blockLines hg' hname').empty.mpr hcriteria
    refine ⟨topLines d.graph fields (front ++ e :: back) ++ front.flatMap (blockLines d.graph),
      back.flatMap (blockLines d.graph), ?_, ?_⟩
    · rw [check_eq h, List.flatMap_append, List.flatMap_cons]
      simp only [List.append_assoc]
    · rw [check_eq h', List.flatMap_append, List.flatMap_cons, hgone, ← htop hsame, ← hblocks hfront,
        ← hblocks hback]
      simp only [List.append_assoc, List.nil_append]

/-- A schema with two faulty properties: the type of one is unknown, the other one has none. -/
def twoFaults : List Char :=
  ("description: x\nused_by: []\nprimary_key: a\n" ++
    "properties: \x7ba: \x7btype: Float\x7d, b: \x7b\x7d\x7d").toList

/-- The same schema with the first of the two mended. -/
def oneFault : List Char :=
  ("description: x\nused_by: []\nprimary_key: a\n" ++
    "properties: \x7ba: \x7btype: String\x7d, b: \x7b\x7d\x7d").toList

/-- What is said about the faulty property that is mended. -/
def mendedBlock : List Text :=
  ["malformed property a:",
    "  type: unknown type Float, should be one of String, Array, Fixnum, Integer, Boolean"]

/-- The fields of both schemas. -/
def faultFields : List (Ref × Ref) := [(1, 2), (3, 4), (5, 6), (7, 8)]

/-- The properties of both schemas. -/
def faultEntries : List (Ref × Ref) := [(9, 10), (13, 14)]

/-- What the three fields that are checked look like in both schemas. -/
def faultLooks : List (Option (Kind × Option Text)) :=
  [some (.string, some "x"), some (.array, none), some (.string, some "a")]

theorem mendedBlock_is_gone : ∃ d d' before behind,
    Declaration twoFaults d faultFields faultEntries ∧
    Declaration oneFault d' faultFields faultEntries ∧
    SameTop d.graph d.root faultEntries d'.graph d'.root faultEntries ∧
    SameProperty d.graph d'.graph (13, 14) (13, 14) ∧ IsCriteria d'.graph 10 ∧
    check d.graph d.root = .ok { lines := before ++ mendedBlock ++ behind } ∧
    check d'.graph d'.root = .ok { lines := before ++ behind } := by
  have reads : ∀ text ∈ [twoFaults, oneFault], ∃ d ∈ (Markup.load text).toOption.join,
      d.graph.object d.root = .map faultFields ∧ d.graph.object 8 = .map faultEntries ∧
      d.graph.object 14 = .map [] ∧ (∀ e ∈ faultEntries, d.graph.Writable e.1) ∧
      field? (pairsOf d.graph faultFields) "properties" = some 8 ∧
      field? (pairsOf d.graph faultFields) "primary_key" = some 6 ∧
      d.graph.atom? 6 = some (.str "a") ∧ d.graph.atom? 9 = some (.str "a") ∧
      d.graph.atom? 13 = some (.str "b") ∧
      (requiredFields ++ optionalFields).map (fun f =>
        (field? (pairsOf d.graph faultFields) f.1).map d.graph.look) = faultLooks := by
    intro text htext
    rcases List.mem_pair.mp htext with rfl | rfl <;> decide +kernel
  have block : ∀ d ∈ (Markup.load twoFaults).toOption.join,
      blockLines d.graph (9, 10) = mendedBlock := by decide +kernel
  have mended : ∀ d ∈ (Markup.load oneFault).toOption.join, checkCriteria d.graph 10 = [] := by
    decide +kernel
  obtain ⟨d, hd, hroot, hmap, hcriteria, hshown, hproperties, hkey, hsix, hnine, hname, hlooks⟩ :=
    reads twoFaults (by simp)
  obtain ⟨d', hd', hroot', hmap', hcriteria', hshown', hproperties', hkey', hsix', hnine', hname',
    hlooks'⟩ := reads oneFault (by simp)
  have hload := eq_ok_of_join hd
  have hload' := eq_ok_of_join hd'
  have hg := Markup.load_keyed hload
  have hg' := Markup.load_keyed hload'
  have hrecord := record?_of_map hroot
  have hrecord' := record?_of_map hroot'
  have first : Declaration twoFaults d faultFields faultEntries :=
    ⟨hload, hroot, ⟨8, (Graph.field?_eq_some_iff hg hrecord).mp hproperties, hmap⟩, hshown⟩
  have second : Declaration oneFault d' faultFields faultEntries :=
    ⟨hload', hroot', ⟨8, (Graph.field?_eq_some_iff hg' hrecord').mp hproperties', hmap'⟩, hshown'⟩
  have top : SameTop d.graph d.root faultEntries d'.graph d'.root faultEntries := by
    refine ⟨fun f hf => (alikeUnder_iff hg hg' hrecord hrecord').mpr
      (List.map_inj_left.mp (hlooks.trans hlooks'.symm) f hf), fun v v' hv hv' => ?_⟩
    cases hkey.symm.trans ((Graph.field?_eq_some_iff hg hrecord).mpr hv)
    cases hkey'.symm.trans ((Graph.field?_eq_some_iff hg' hrecord').mpr hv')
    exact iff_of_true ⟨(9, 10), by decide, _, _, hnine, hsix, by decide⟩
      ⟨(9, 10), by decide, _, _, hnine', hsix', by decide⟩
  have behind : SameProperty d.graph d'.graph (13, 14) (13, 14) := by
    refine ⟨by rw [Graph.shown?, Graph.shown?, hname, hname'], ?_, fun f _ => ?_⟩
    · rw [Graph.kind, Graph.kind, hcriteria, hcriteria']
    · exact (alikeUnder_iff hg hg' (record?_of_map hcriteria) (record?_of_map hcriteria')).mpr rfl
  have criteria : IsCriteria d'.graph 10 :=
    (checkCriteria_eq_nil_iff hg').mp (mended d' hd')
  obtain ⟨-, -, -, -, -, replaced⟩ := reports_are_local first second
  obtain ⟨before, rest, hreport, hreport'⟩ :=
    replaced [] (9, 10) [(13, 14)] [] (9, 10) [(13, 14)] rfl rfl top .nil (.cons behind .nil) criteria
  rw [block d hd] at hreport
  exact ⟨d, d', before, rest, first, second, top, behind, criteria, hreport, hreport'⟩

end Schema

end Conform
