import Conform.Validation
import Conform.Proofs.Markup.Keyed

/-!
# What a valid collection is

Validation runs through elements, declared properties and keys, and looks names up in both
directions. This file says what it decides, without any loop or lookup: an element conforms to a
schema if it is a mapping that holds the primary key, whose declared keys hold values of their
declared types, and whose keys are all declared. The main statement, `validate_eq_ok_iff`, is
that exactly the lists of conforming elements pass.
-/

namespace Conform

/-! ## 1. Conforming elements -/

/-- The values of a declared type: texts, lists, integers, and the two truth values. -/
inductive PropertyType.Holds : PropertyType → Object → Prop
  | string (t : Text) : Holds .string (.atom (.str t))
  | array (items : List Ref) : Holds .array (.list items)
  | integer (i : Int) : Holds .integer (.atom (.int i))
  | boolean (b : Bool) : Holds .boolean (.atom (.bool b))

/-- An element that conforms to a schema. -/
structure Schema.Conforms (s : Schema) (g : Graph) (element : Ref) : Prop where
  /-- It is a mapping, which has the primary key if there is one. -/
  mapping : ∃ entries, g.object element = .map entries ∧
    ∀ name, s.primaryKey = some name → ∃ e ∈ entries, g.atom? e.1 = some (.str name)
  /-- A value under the name of a property has the type of the property. -/
  typed : ∀ entries, g.object element = .map entries → ∀ p ∈ s.properties, ∀ e ∈ entries,
    ∀ key, g.atom? e.1 = some key → key.sameKey p.1 = true → p.2.type.Holds (g.object e.2)
  /-- Every key is the name of a property. -/
  declared : ∀ entries, g.object element = .map entries → ∀ e ∈ entries,
    ∀ key, g.atom? e.1 = some key → ∃ p ∈ s.properties, p.1.sameKey key = true

/-- A type accepts the kind of an object exactly if the object is one of its values. -/
theorem PropertyType.accepts_kind_iff {t : PropertyType} {o : Object} :
    t.accepts o.kind = true ↔ t.Holds o := by
  constructor
  · intro h
    have hk : t.kind = o.kind := by simpa [accepts] using h
    cases o with
    | atom a => cases t <;> cases a <;> first | constructor | cases hk
    | _ => cases t <;> first | constructor | cases hk
  · rintro (t | items | i | b) <;> rfl

/-! ## 2. Records of a graph with proper keys -/

section Record

variable {g : Graph} {element : Ref} {entries : List (Ref × Ref)}

theorem record?_of_map (h : g.object element = .map entries) :
    g.record? element = some (entries.map fun e => ((g.atom? e.1).getD .null, e.2)) := by
  simp [Graph.record?, h]

/-- The fields of an element that is a mapping: its keys, and the kinds of its values. -/
def fieldsOf (g : Graph) (entries : List (Ref × Ref)) : List (Atom × Kind) :=
  entries.map fun e => ((g.atom? e.1).getD .null, g.kind e.2)

theorem element_of_map (h : g.object element = .map entries) :
    g.element element = .record (fieldsOf g entries) := by
  simp [Graph.element, record?_of_map h, fieldsOf]

theorem element_of_not_map (h : ∀ entries, g.object element ≠ .map entries) :
    g.element element = .other (g.kind element) := by
  have hr : g.record? element = none := by
    unfold Graph.record?
    split
    · rename_i entries he
      exact absurd he (h entries)
    · rfl
  simp [Graph.element, hr]

theorem mem_fieldsOf (hg : g.Keyed) (h : g.object element = .map entries) {f : Atom × Kind} :
    f ∈ fieldsOf g entries ↔
      ∃ e ∈ entries, g.atom? e.1 = some f.1 ∧ g.kind e.2 = f.2 := by
  simp only [fieldsOf, List.mem_map]
  constructor
  · rintro ⟨e, he, rfl⟩
    obtain ⟨a, ha⟩ := (hg _ _ h).1 e he
    exact ⟨e, he, by simp [ha], rfl⟩
  · rintro ⟨e, he, hk, hv⟩
    exact ⟨e, he, by simp [hk, hv]⟩

theorem distinct_fieldsOf (hg : g.Keyed) (h : g.object element = .map entries) :
    Distinct Atom.sameKey (fieldsOf g entries) := by
  obtain ⟨atoms, apart⟩ := hg _ _ h
  refine List.pairwise_map.mpr (apart.imp_of_mem fun {p q} hp hq hpq => ?_)
  obtain ⟨a, ha⟩ := atoms p hp
  obtain ⟨b, hb⟩ := atoms q hq
  simpa [ha, hb] using hpq a b ha hb

end Record

namespace Schema

/-! ## 3. Elements without violations -/

section Violations

variable {s : Schema} {fields : List (Atom × Kind)}

theorem missingKeys_eq_nil_iff : s.missingKeys fields = [] ↔
    ∀ name, s.primaryKey = some name → ∃ f ∈ fields, f.1 = .str name := by
  unfold missingKeys
  cases s.primaryKey with
  | none => simp
  | some name =>
    simp only [Option.some.injEq, forall_eq']
    cases hf : fieldOf? fields (.str name) with
    | none =>
      have hno := fieldOf?_eq_none_iff.mp hf
      simp only [Option.isSome_none, Bool.false_eq_true, if_false, List.cons_ne_nil, false_iff]
      rintro ⟨f, hmem, hk⟩
      have := hno f hmem
      rw [Atom.sameKey_str.mpr hk] at this
      cases this
    | some k =>
      obtain ⟨f, hmem, hk, -⟩ := mem_of_fieldOf? hf
      simp only [Option.isSome_some, if_true, true_iff]
      exact ⟨f, hmem, Atom.sameKey_str.mp hk⟩

theorem wrongType_eq_nil_iff (hd : Distinct Atom.sameKey fields) {p : Atom × Property} :
    wrongType fields p = [] ↔
      ∀ f ∈ fields, f.1.sameKey p.1 = true → p.2.type.accepts f.2 = true := by
  unfold wrongType
  cases hf : fieldOf? fields p.1 with
  | none =>
    have hno := fieldOf?_eq_none_iff.mp hf
    simp only [true_iff]
    intro f hmem hk
    rw [hno f hmem] at hk
    cases hk
  | some k =>
    obtain ⟨f, hmem, hk, rfl⟩ := mem_of_fieldOf? hf
    dsimp only
    constructor
    · intro h f' hmem' hk'
      have := fieldOf?_of_mem hd hmem' hk'
      rw [hf] at this
      rw [← Option.some.inj this]
      cases ha : p.2.type.accepts f.2 with
      | true => rfl
      | false => simp [ha] at h
    · intro h
      simp [h f hmem hk]

theorem unknownField_eq_nil_iff {f : Atom × Kind} :
    s.unknownField f = [] ↔ ∃ p ∈ s.properties, p.1.sameKey f.1 = true := by
  have : s.declares f.1 = true ↔ ∃ p ∈ s.properties, p.1.sameKey f.1 = true := List.any_eq_true
  rw [← this, unknownField]
  split <;> simp_all

/-- A record has no violations exactly if it has the primary key, its declared keys hold what they
    should, and all its keys are declared. -/
theorem violations_record_eq_nil_iff (hd : Distinct Atom.sameKey fields) :
    s.violations (.record fields) = [] ↔
      (∀ name, s.primaryKey = some name → ∃ f ∈ fields, f.1 = .str name) ∧
      (∀ p ∈ s.properties, ∀ f ∈ fields, f.1.sameKey p.1 = true → p.2.type.accepts f.2 = true) ∧
      ∀ f ∈ fields, ∃ p ∈ s.properties, p.1.sameKey f.1 = true := by
  simp only [violations, List.append_eq_nil_iff, missingKeys_eq_nil_iff, List.flatMap_eq_nil_iff,
    wrongType_eq_nil_iff hd, unknownField_eq_nil_iff, and_assoc]

end Violations

/-- An element has no violations exactly if it conforms. -/
theorem violations_eq_nil_iff {s : Schema} {g : Graph} (hg : g.Keyed) {element : Ref} :
    s.violations (g.element element) = [] ↔ s.Conforms g element := by
  by_cases hm : ∃ entries, g.object element = .map entries
  · obtain ⟨entries, h⟩ := hm
    rw [element_of_map h, violations_record_eq_nil_iff (distinct_fieldsOf hg h)]
    constructor
    · rintro ⟨hprimary, htyped, hdeclared⟩
      refine ⟨⟨entries, h, fun name hname => ?_⟩, fun es hes => ?_, fun es hes => ?_⟩
      · obtain ⟨f, hf, hk⟩ := hprimary name hname
        obtain ⟨e, he, hek, -⟩ := (mem_fieldsOf hg h).mp hf
        exact ⟨e, he, hk ▸ hek⟩
      · cases h.symm.trans hes
        intro p hp e he key hkey hsame
        have hf := (mem_fieldsOf hg h (f := (key, g.kind e.2))).mpr ⟨e, he, hkey, rfl⟩
        exact PropertyType.accepts_kind_iff.mp (htyped p hp _ hf hsame)
      · cases h.symm.trans hes
        intro e he key hkey
        exact hdeclared _ ((mem_fieldsOf hg h (f := (key, g.kind e.2))).mpr ⟨e, he, hkey, rfl⟩)
    · rintro ⟨⟨es, hes, hprimary⟩, htyped, hdeclared⟩
      cases h.symm.trans hes
      refine ⟨fun name hname => ?_, fun p hp f hf hsame => ?_, fun f hf => ?_⟩
      · obtain ⟨e, he, hek⟩ := hprimary name hname
        exact ⟨_, (mem_fieldsOf hg h (f := (.str name, g.kind e.2))).mpr ⟨e, he, hek, rfl⟩, rfl⟩
      · obtain ⟨e, he, hek, hv⟩ := (mem_fieldsOf hg h).mp hf
        rw [← hv]
        exact PropertyType.accepts_kind_iff.mpr (htyped entries h p hp e he f.1 hek hsame)
      · obtain ⟨e, he, hek, -⟩ := (mem_fieldsOf hg h).mp hf
        exact hdeclared entries h e he f.1 hek
  · have hno : ∀ entries, g.object element ≠ .map entries := fun entries h => hm ⟨entries, h⟩
    rw [element_of_not_map hno]
    constructor
    · intro h
      cases h
    · rintro ⟨⟨entries, h, -⟩, -, -⟩
      exact absurd h (hno entries)

/-! ## 4. Collections that pass -/

/-- There are no lines about an element exactly if it has no violations. -/
theorem elementLines?_eq_nil_iff {s : Schema} {g : Graph} {element : Ref} :
    s.elementLines? g element = some [] ↔ s.violations (g.element element) = [] := by
  rw [elementLines?]
  cases s.violations (g.element element) with
  | nil => simp
  | cons v vs =>
    cases hv : v.line? <;> cases hvs : vs.mapM Violation.line? <;> simp [hv, hvs]

/-- The report about an element is empty exactly if it has no violations. -/
theorem examineElement_eq_empty_iff {s : Schema} {g : Graph} {element : Ref} :
    (∃ report, s.examineElement g element = .ok report ∧ report.lines = []) ↔
      s.violations (g.element element) = [] := by
  rw [← elementLines?_eq_nil_iff, examineElement]
  constructor
  · rintro ⟨report, h, hlines⟩
    split at h
    · cases h
    · assumption
    · obtain ⟨dump, -, h₂⟩ := bind_eq_ok.mp h
      cases h₂
      cases hlines
  · intro h
    rw [h]
    exact ⟨{}, rfl, rfl⟩

theorem examineElements_eq_nil_iff {s : Schema} {g : Graph} : ∀ {items : List Ref},
    s.examineElements g items = .ok [] ↔ ∀ r ∈ items, s.violations (g.element r) = []
  | [] => by simp [examineElements]
  | r :: rs => by
      rw [List.forall_mem_cons, ← examineElement_eq_empty_iff, ← examineElements_eq_nil_iff]
      constructor
      · intro h
        obtain ⟨report, h₁, h₂⟩ := bind_eq_ok.mp h
        obtain ⟨lines, h₃, h₄⟩ := bind_eq_ok.mp h₂
        obtain ⟨e₁, e₂⟩ := List.append_eq_nil_iff.mp (pure_eq_ok.mp h₄)
        exact ⟨⟨report, h₁, e₁⟩, e₂ ▸ h₃⟩
      · rintro ⟨⟨report, h₁, e₁⟩, h₂⟩
        exact bind_eq_ok.mpr ⟨report, h₁, bind_eq_ok.mpr ⟨[], h₂, by simp [e₁]⟩⟩

/-- An examination with findings is one of the elements of a list. -/
theorem examine_eq_ok {s : Schema} {text : List Char} {findings : Findings}
    (h : s.examine text = .ok findings) : ∃ d items lines,
      Markup.load text = .ok (some d) ∧ d.graph.object d.root = .list items ∧
      s.examineElements d.graph items = .ok lines ∧ findings = ⟨items.length, { lines }⟩ := by
  unfold examine at h
  split at h <;> try cases h
  rename_i d hload
  split at h <;> try cases h
  split at h <;> try cases h
  rename_i items hroot
  split at h <;> cases h
  rename_i lines hlines
  exact ⟨d, items, lines, hload, hroot, hlines, rfl⟩

/-- An examination without findings: the text is no document, or stands for nothing, or is no
    list. -/
theorem examine_eq_rejected {s : Schema} {text : List Char} {r : Rejection}
    (h : s.examine text = .error (.rejected r)) :
    (Markup.load text = .error .malformed ∧ r = unparsedCollection true) ∨
    ((Markup.load text = .ok none ∨
        ∃ d, Markup.load text = .ok (some d) ∧ d.graph.kind d.root = .null) ∧
      r = unparsedCollection false) ∨
    ∃ d, Markup.load text = .ok (some d) ∧ r = notACollection := by
  unfold examine at h
  split at h
  · rename_i hload
    cases h
    exact .inl ⟨hload, rfl⟩
  · cases h
  · rename_i hload
    cases h
    exact .inr (.inl ⟨.inl hload, rfl⟩)
  · rename_i d hload
    split at h
    · rename_i hnull
      cases h
      exact .inr (.inl ⟨.inr ⟨d, hload, hnull⟩, rfl⟩)
    · split at h
      · split at h <;> cases h
      · cases h
        exact .inr (.inr ⟨d, hload, rfl⟩)

/-- A text is a valid collection of a schema: it loads as a list of conforming elements. -/
def IsValid (s : Schema) (text : List Char) : Prop :=
  ∃ d items, Markup.load text = .ok (some d) ∧ d.graph.object d.root = .list items ∧
    ∀ r ∈ items, s.Conforms d.graph r

theorem validate_eq_ok_iff {s : Schema} {text : List Char} :
    s.validate text = .ok () ↔ s.IsValid text := by
  constructor
  · intro h
    obtain ⟨findings, hexamine, hverdict⟩ := bind_eq_ok.mp h
    obtain ⟨d, items, lines, hload, hroot, hlines, rfl⟩ := examine_eq_ok hexamine
    have hnil : lines = [] := by
      cases lines with
      | nil => rfl
      | cons l ls => cases hverdict
    subst hnil
    refine ⟨d, items, hload, hroot, fun r hr => ?_⟩
    exact (violations_eq_nil_iff (Markup.load_keyed hload)).mp
      (examineElements_eq_nil_iff.mp hlines r hr)
  · rintro ⟨d, items, hload, hroot, hall⟩
    have hlines : s.examineElements d.graph items = .ok [] :=
      examineElements_eq_nil_iff.mpr fun r hr =>
        (violations_eq_nil_iff (Markup.load_keyed hload)).mpr (hall r hr)
    have hkind : d.graph.kind d.root ≠ .null := by
      rw [Graph.kind, hroot]
      exact fun h => by cases h
    have hexamine : s.examine text = .ok ⟨items.length, {}⟩ := by
      simp only [examine, hload, hkind, if_false, hroot, hlines]
    rw [validate, hexamine]
    rfl

/-- **Validation is sound and complete**: exactly the valid collections pass, checking says the
    same, and every other text fails. -/
theorem validation_decides (s : Schema) (text : List Char) :
    (s.validate text = .ok () ↔ s.IsValid text) ∧
      (s.result text = .ok { valid := true } ↔ s.IsValid text) ∧
      ((∃ r, s.result text = .ok r ∧ r.valid = true) ↔ s.IsValid text) ∧
      (¬ s.IsValid text ↔ ∃ f, s.validate text = .error f) := by
  simp only [← validate_eq_ok_iff, result]
  cases s.validate text with
  | ok u => simp
  | error f => cases f <;> simp

end Schema

end Conform
