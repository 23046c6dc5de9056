import Mathlib.Data.List.Forall2
import Conform.Schema.Compile
import Conform.Proofs.Markup.Keyed

/-!
# What a schema document is

A document is checked by one part of the library and read off by another, which looks fields up
without asking whether they are there. This file says, without loops and lookups, which documents
are schema documents (`IsSchema`) and which schema such a document describes (`Describes`). The
check has nothing to say exactly about schema documents (`check_nil_iff`), each of them describes
one schema, and reading it off gives that schema (`ofDocument?_of_describes`); so a text compiles
exactly if it holds a schema document, and to what that describes (`compilation_decides`).
-/

namespace Conform

/-! ## 1. Fields of a document -/

namespace Graph

/-- A mapping holds a value under a name. -/
def Field (g : Graph) (r : Ref) (name : Text) (v : Ref) : Prop :=
  ∃ entries, g.object r = .map entries ∧
    ∃ e ∈ entries, g.atom? e.1 = some (.str name) ∧ e.2 = v

/-- A mapping holds a text under a name, or nothing. -/
def OptionalText (g : Graph) (r : Ref) (name : Text) : Option Text → Prop
  | some t => ∃ v, g.Field r name v ∧ g.object v = .atom (.str t)
  | none => ∀ v, ¬ g.Field r name v

section Kinds

variable {g : Graph} {r : Ref}

theorem kind_eq_string_iff : g.kind r = .string ↔ ∃ t, g.object r = .atom (.str t) := by
  unfold kind
  cases g.object r with
  | atom a => cases a <;> simp [Object.kind, Atom.kind]
  | _ => simp [Object.kind]

theorem kind_eq_array_iff : g.kind r = .array ↔ ∃ items, g.object r = .list items := by
  unfold kind
  cases g.object r with
  | atom a => cases a <;> simp [Object.kind, Atom.kind]
  | _ => simp [Object.kind]

theorem atom?_eq_some_iff {a : Atom} : g.atom? r = some a ↔ g.object r = .atom a := by
  unfold atom?
  cases g.object r <;> simp

theorem record?_isSome_iff : (g.record? r).isSome = true ↔ ∃ entries, g.object r = .map entries := by
  unfold record?
  cases g.object r <;> simp

end Kinds

/-- A lookup by name finds exactly the fields. -/
theorem field?_eq_some_iff {g : Graph} (hg : g.Keyed) {r v : Ref} {record : List (Atom × Ref)}
    (h : g.record? r = some record) {name : Text} :
    Schema.field? record name = some v ↔ g.Field r name v := by
  unfold record? at h
  split at h
  · rename_i entries he
    cases h
    obtain ⟨atoms, apart⟩ := hg r entries he
    have hd : Distinct Atom.sameKey (entries.map fun e => ((g.atom? e.1).getD .null, e.2)) := by
      refine List.pairwise_map.mpr (apart.imp_of_mem fun {p q} hp hq hpq => ?_)
      obtain ⟨a, ha⟩ := atoms p hp
      obtain ⟨b, hb⟩ := atoms q hq
      simpa [ha, hb] using hpq a b ha hb
    rw [Schema.field?, fieldOf?_eq_some_iff hd]
    constructor
    · rintro ⟨p, hp, hk, rfl⟩
      obtain ⟨e, hmem, rfl⟩ := List.mem_map.mp hp
      obtain ⟨a, ha⟩ := atoms e hmem
      rw [Atom.sameKey_str, ha] at hk
      exact ⟨entries, he, e, hmem, by rw [ha]; exact congrArg some hk, rfl⟩
    · rintro ⟨es, hes, e, hmem, hk, rfl⟩
      cases he.symm.trans hes
      exact ⟨_, List.mem_map.mpr ⟨e, hmem, rfl⟩, by simp [hk], rfl⟩
  · cases h

/-- A name stands for at most one value. -/
theorem Field.unique {g : Graph} (hg : g.Keyed) {r v w : Ref} {name : Text}
    (hv : g.Field r name v) (hw : g.Field r name w) : v = w := by
  obtain ⟨entries, he, -⟩ := id hv
  have hr : g.record? r = some (entries.map fun e => ((g.atom? e.1).getD .null, e.2)) := by
    simp [record?, he]
  have := (field?_eq_some_iff hg hr).mpr hv
  rw [(field?_eq_some_iff hg hr).mpr hw] at this
  exact (Option.some.inj this).symm

end Graph

/-- The pairs of a mapping, with their keys as atoms. -/
def pairsOf (g : Graph) (entries : List (Ref × Ref)) : List (Atom × Ref) :=
  entries.map fun e => ((g.atom? e.1).getD .null, e.2)

theorem Report.hasLines_eq_false_iff {rep : Report} : rep.hasLines = false ↔ rep.lines = [] := by
  cases hl : rep.lines <;> simp [Report.hasLines, hl]

namespace Schema

/-! ## 2. Schema documents -/

/-- The criteria of a property: a mapping with one of the five type names and, if at all, texts as
    description and as reference. -/
structure IsCriteria (g : Graph) (r : Ref) : Prop where
  type : ∃ v name t, g.Field r "type" v ∧ g.object v = .atom (.str name) ∧
    (name, t) ∈ PropertyType.declared
  description : ∀ v, g.Field r "description" v → ∃ t, g.object v = .atom (.str t)
  keyInto : ∀ v, g.Field r "key_into" v → ∃ t, g.object v = .atom (.str t)

/-- A schema document: a mapping with a text as description, a list of users, a mapping from names
    to criteria and, if at all, one of these names as primary key. -/
structure IsSchema (g : Graph) (r : Ref) : Prop where
  description : ∃ v t, g.Field r "description" v ∧ g.object v = .atom (.str t)
  usedBy : ∃ v items, g.Field r "used_by" v ∧ g.object v = .list items
  properties : ∃ v entries, g.Field r "properties" v ∧ g.object v = .map entries ∧
    ∀ e ∈ entries, IsCriteria g e.2
  primaryKey : ∀ v, g.Field r "primary_key" v → ∃ t, g.object v = .atom (.str t) ∧
    ∃ p entries, g.Field r "properties" p ∧ g.object p = .map entries ∧
      ∃ e ∈ entries, g.atom? e.1 = some (.str t)

/-- Criteria describe the property with the type of that name and with these texts. -/
structure DescribesProperty (g : Graph) (r : Ref) (p : Property) : Prop where
  type : ∃ v name, g.Field r "type" v ∧ g.object v = .atom (.str name) ∧
    (name, p.type) ∈ PropertyType.declared
  description : g.OptionalText r "description" p.description
  keyInto : g.OptionalText r "key_into" p.keyInto

/-- A document describes the schema with its texts and users and, in the same order, one property
    for every name. -/
structure Describes (g : Graph) (r : Ref) (s : Schema) : Prop where
  description : ∃ v, g.Field r "description" v ∧ g.object v = .atom (.str s.description)
  usedBy : ∃ v items, g.Field r "used_by" v ∧ g.object v = .list items ∧
    s.usedBy = items.map g.outline
  primaryKey : g.OptionalText r "primary_key" s.primaryKey
  properties : ∃ v entries, g.Field r "properties" v ∧ g.object v = .map entries ∧
    List.Forall₂ (fun e p => ∃ name, g.atom? e.1 = some name ∧ p.1 = name.keep ∧
      DescribesProperty g e.2 p.2) entries s.properties ∧
    ∀ t, s.primaryKey = some t → ∃ e ∈ entries, g.atom? e.1 = some (.str t)

/-- A value is as good as none: null or false. -/
def IsUnset (g : Graph) (v : Ref) : Prop :=
  g.object v = .atom .null ∨ g.object v = .atom (.bool false)

/-- A value is the same key as a name. -/
def Names (g : Graph) (entries : List (Ref × Ref)) (v : Ref) : Prop :=
  ∃ e ∈ entries, ∃ name a, g.atom? e.1 = some name ∧ g.atom? v = some a ∧ name.sameKey a = true

/-! ## 3. What the check has nothing to say about -/

theorem resolve?_eq_some_iff {name : Text} {t : PropertyType} :
    PropertyType.resolve? name = some t ↔ (name, t) ∈ PropertyType.declared := by
  constructor
  · intro h
    obtain ⟨d, hd, rfl⟩ := Option.map_eq_some_iff.mp h
    have hn : d.1 = name := by simpa using List.find?_some hd
    rw [← hn]
    exact List.mem_of_find?_eq_some hd
  · intro h
    simp only [PropertyType.declared, List.mem_cons, Prod.mk.injEq, List.not_mem_nil,
      or_false] at h
    rcases h with ⟨rfl, rfl⟩ | ⟨rfl, rfl⟩ | ⟨rfl, rfl⟩ | ⟨rfl, rfl⟩ | ⟨rfl, rfl⟩ <;> decide

section Check

variable {g : Graph} (hg : g.Keyed)
include hg

variable {r : Ref} {record : List (Atom × Ref)}

omit hg in
theorem presentField_eq_nil_iff {name : Text} {k : Kind} {v : Ref} :
    presentField g name k v = [] ↔ g.kind v = k := by
  unfold presentField
  split <;> simp_all

theorem requiredField_eq_nil_iff (h : g.record? r = some record) {f : Text × Kind} :
    requiredField g record f = [] ↔ ∃ v, g.Field r f.1 v ∧ g.kind v = f.2 := by
  simp only [← Graph.field?_eq_some_iff hg h]
  unfold requiredField
  cases field? record f.1 with
  | none => simp
  | some v => simp [presentField_eq_nil_iff]

theorem optionalField_eq_nil_iff (h : g.record? r = some record) {f : Text × Kind} :
    optionalField g record f = [] ↔ ∀ v, g.Field r f.1 v → g.kind v = f.2 := by
  simp only [← Graph.field?_eq_some_iff hg h]
  unfold optionalField
  cases field? record f.1 with
  | none => simp
  | some v => simp [presentField_eq_nil_iff]

theorem unknownType_eq_nil_iff (h : g.record? r = some record) :
    unknownType g record = [] ↔ ∀ v name, g.Field r "type" v → g.object v = .atom (.str name) →
      ∃ t, (name, t) ∈ PropertyType.declared := by
  simp only [← Graph.field?_eq_some_iff hg h, ← resolve?_eq_some_iff]
  unfold unknownType
  cases field? record "type" with
  | none => simp
  | some v =>
    dsimp only [Option.bind_some]
    constructor
    · intro hnil w name hw ho
      cases hw
      rw [Graph.atom?_eq_some_iff.mpr ho] at hnil
      cases hn : PropertyType.resolve? name with
      | none => simp [hn] at hnil
      | some t => exact ⟨t, rfl⟩
    · intro hall
      split
      · rename_i name hname
        obtain ⟨t, ht⟩ := hall v name rfl (Graph.atom?_eq_some_iff.mp hname)
        simp [ht]
      · rfl

/-- Criteria are not reported exactly if they are criteria. -/
theorem checkCriteria_eq_nil_iff : checkCriteria g r = [] ↔ IsCriteria g r := by
  unfold checkCriteria
  cases h : g.record? r with
  | none =>
    simp only [List.cons_ne_nil, false_iff]
    rintro ⟨⟨v, name, t, ⟨entries, he, -⟩, -⟩, -, -⟩
    simp [Graph.record?, he] at h
  | some record =>
    simp only [checkFields, requiredCriteria, optionalCriteria, List.flatMap_cons,
      List.flatMap_nil, List.append_nil, List.append_eq_nil_iff, requiredField_eq_nil_iff hg h,
      optionalField_eq_nil_iff hg h, unknownType_eq_nil_iff hg h, Graph.kind_eq_string_iff]
    constructor
    · rintro ⟨⟨⟨v, hv, name, hn⟩, hd, hk⟩, hu⟩
      obtain ⟨t, ht⟩ := hu v name hv hn
      exact ⟨⟨v, name, t, hv, hn, ht⟩, hd, hk⟩
    · rintro ⟨⟨v, name, t, hv, hn, ht⟩, hd, hk⟩
      refine ⟨⟨⟨v, hv, name, hn⟩, hd, hk⟩, fun w name' hw hn' => ?_⟩
      cases hv.unique hg hw
      cases hn.symm.trans hn'
      exact ⟨t, ht⟩

theorem checkProperties_eq_nil_iff : ∀ {ps : List (Atom × Ref)},
    checkProperties g ps = .ok [] ↔ ∀ p ∈ ps, IsCriteria g p.2
  | [] => by simp [checkProperties]
  | p :: ps => by
      have one : (∃ rep, checkProperty g p = .ok rep ∧ rep.lines = []) ↔ IsCriteria g p.2 := by
        rw [← checkCriteria_eq_nil_iff hg]
        unfold checkProperty
        cases checkCriteria g p.2 with
        | nil => simp
        | cons l ls => cases p.1.shown? <;> simp [Report.nest]
      rw [List.forall_mem_cons, ← one, ← checkProperties_eq_nil_iff]
      constructor
      · intro h
        obtain ⟨rep, h₁, h₂⟩ := bind_eq_ok.mp h
        obtain ⟨lines, h₃, h₄⟩ := bind_eq_ok.mp h₂
        obtain ⟨e₁, e₂⟩ := List.append_eq_nil_iff.mp (pure_eq_ok.mp h₄)
        exact ⟨⟨rep, h₁, e₁⟩, e₂ ▸ h₃⟩
      · rintro ⟨⟨rep, h₁, e₁⟩, h₂⟩
        exact bind_eq_ok.mpr ⟨rep, h₁, bind_eq_ok.mpr ⟨[], h₂, by simp [e₁]⟩⟩

theorem any_pairsOf_iff {p : Ref} (hp : g.object p = .map entries) {a : Atom} :
    ((pairsOf g entries).any fun q => q.1.sameKey a) = true ↔
      ∃ e ∈ entries, ∃ name, g.atom? e.1 = some name ∧ name.sameKey a = true := by
  simp only [pairsOf, List.any_map, List.any_eq_true, Function.comp]
  refine exists_congr fun e => and_congr_right fun he => ?_
  obtain ⟨name, hname⟩ := (hg p entries hp).1 e he
  simp [hname]

/-- The line about the primary key is missing exactly if there is no primary key, or it is set to
    nothing, or it names a property. -/
theorem checkPrimaryKey_pairsOf_iff (h : g.record? r = some record)
    {p : Ref} (hp : g.object p = .map entries) :
    checkPrimaryKey g record (pairsOf g entries) = [] ↔
      ∀ v, g.Field r "primary_key" v → IsUnset g v ∨ Names g entries v := by
  simp only [← Graph.field?_eq_some_iff hg h]
  unfold checkPrimaryKey
  cases field? record "primary_key" with
  | none => simp
  | some v =>
    simp only [Option.some.injEq, forall_eq', ite_eq_left_iff, List.cons_ne_nil, imp_false,
      Decidable.not_not]
    unfold IsUnset Names
    cases ho : g.object v with
    | atom a =>
      have hany := any_pairsOf_iff hg hp (a := a)
      have hatom := Graph.atom?_eq_some_iff.mpr ho
      cases a with
      | null => simp
      | bool b => cases b <;> simp [hany, hatom]
      | _ => simp [hany, hatom]
    | _ => simp [Graph.atom?, ho]

theorem checkPrimaryKey_eq_nil_iff (h : g.record? r = some record) {p : Ref}
    {entries : List (Ref × Ref)} (hp : g.object p = .map entries)
    {properties : List (Atom × Ref)} (hps : g.record? p = some properties)
    (htext : ∀ v, g.Field r "primary_key" v → ∃ t, g.object v = .atom (.str t)) :
    checkPrimaryKey g record properties = [] ↔ ∀ v t, g.Field r "primary_key" v →
      g.object v = .atom (.str t) → ∃ e ∈ entries, g.atom? e.1 = some (.str t) := by
  have hpairs : properties = pairsOf g entries := by
    simp only [Graph.record?, hp, Option.some.injEq] at hps
    exact hps.symm
  rw [hpairs, checkPrimaryKey_pairsOf_iff hg h hp]
  constructor
  · intro hall v t hv ht
    rcases hall v hv with (hnull | hfalse) | ⟨e, he, name, a, hname, ha, hsame⟩
    · cases ht.symm.trans hnull
    · cases ht.symm.trans hfalse
    · cases (Graph.atom?_eq_some_iff.mpr ht).symm.trans ha
      exact ⟨e, he, Atom.sameKey_str.mp hsame ▸ hname⟩
  · intro hall v hv
    obtain ⟨t, ht⟩ := htext v hv
    obtain ⟨e, he, hname⟩ := hall v t hv ht
    exact .inr ⟨e, he, _, _, hname, Graph.atom?_eq_some_iff.mpr ht, Atom.sameKey_refl _⟩

/-- Nothing is said about the fields of a schema document if they are what they should be. -/
theorem topFields_eq_nil_iff (h : g.record? r = some record) :
    checkFields g record requiredFields optionalFields = [] ↔
      (∃ v t, g.Field r "description" v ∧ g.object v = .atom (.str t)) ∧
      (∃ v items, g.Field r "used_by" v ∧ g.object v = .list items) ∧
      ∀ v, g.Field r "primary_key" v → ∃ t, g.object v = .atom (.str t) := by
  simp only [checkFields, requiredFields, optionalFields, List.flatMap_cons, List.flatMap_nil,
    List.append_nil, List.append_eq_nil_iff, requiredField_eq_nil_iff hg h,
    optionalField_eq_nil_iff hg h, Graph.kind_eq_string_iff, Graph.kind_eq_array_iff, and_assoc,
    exists_and_left]

section Table

variable {p : Ref} {properties : List (Atom × Ref)}

omit hg in
/-- A document with a table of properties is checked in three parts. -/
theorem check_table_nil_iff (h : g.record? r = some record) (hp : field? record "properties" = some p)
    (hrec : g.record? p = some properties) :
    (∃ rep, check g r = .ok rep ∧ rep.lines = []) ↔
      checkFields g record requiredFields optionalFields = [] ∧
        checkPrimaryKey g record properties = [] ∧ checkProperties g properties = .ok [] := by
  obtain ⟨entries, he⟩ := Graph.record?_isSome_iff.mp (by rw [hrec]; rfl)
  have hkind : g.kind p ≠ .null := by
    rw [Graph.kind, he]
    exact fun e => by cases e
  unfold check
  simp only [h, hp, if_neg hkind, hrec]
  constructor
  · rintro ⟨rep, hrep, hnil⟩
    obtain ⟨blocks, hblocks, hlines⟩ := bind_eq_ok.mp hrep
    cases hlines
    obtain ⟨hfront, rfl⟩ := List.append_eq_nil_iff.mp hnil
    obtain ⟨htop, hprimary⟩ := List.append_eq_nil_iff.mp hfront
    exact ⟨htop, hprimary, hblocks⟩
  · rintro ⟨htop, hprimary, hblocks⟩
    exact ⟨_, bind_eq_ok.mpr ⟨[], hblocks, rfl⟩, by simp [htop, hprimary]⟩

/-- The three parts have nothing to say exactly about schema documents. -/
theorem parts_nil_iff (h : g.record? r = some record) (hp : field? record "properties" = some p)
    (hrec : g.record? p = some properties) :
    (checkFields g record requiredFields optionalFields = [] ∧
      checkPrimaryKey g record properties = [] ∧ checkProperties g properties = .ok []) ↔
        IsSchema g r := by
  have hfield : g.Field r "properties" p := (Graph.field?_eq_some_iff hg h).mp hp
  obtain ⟨entries, he⟩ := Graph.record?_isSome_iff.mp (by rw [hrec]; rfl)
  have criteria : (∀ q ∈ properties, IsCriteria g q.2) ↔ ∀ e ∈ entries, IsCriteria g e.2 := by
    simp only [Graph.record?, he, Option.some.injEq] at hrec
    subst hrec
    exact List.forall_mem_map
  rw [topFields_eq_nil_iff hg h, checkProperties_eq_nil_iff hg, criteria]
  constructor
  · rintro ⟨⟨hdesc, hused, htext⟩, hprimary, hall⟩
    have hkeys := (checkPrimaryKey_eq_nil_iff hg h he hrec htext).mp hprimary
    refine ⟨hdesc, hused, ⟨p, entries, hfield, he, hall⟩, fun v hv => ?_⟩
    obtain ⟨t, ht⟩ := htext v hv
    exact ⟨t, ht, p, entries, hfield, he, hkeys v t hv ht⟩
  · rintro ⟨hdesc, hused, ⟨p', entries', hp', he', hall⟩, hprimary⟩
    cases hfield.unique hg hp'
    cases he.symm.trans he'
    have htext : ∀ v, g.Field r "primary_key" v → ∃ t, g.object v = .atom (.str t) :=
      fun v hv => (hprimary v hv).imp fun t ht => ht.1
    refine ⟨⟨hdesc, hused, htext⟩, ?_, hall⟩
    refine (checkPrimaryKey_eq_nil_iff hg h he hrec htext).mpr fun v t hv ht => ?_
    obtain ⟨t', ht', p'', es, hp'', hes, hmem⟩ := hprimary v hv
    cases ht.symm.trans ht'
    cases hfield.unique hg hp''
    cases he.symm.trans hes
    exact hmem

end Table

/-- The check has nothing to say exactly about schema documents. -/
theorem check_nil_iff : (∃ rep, check g r = .ok rep ∧ rep.lines = []) ↔ IsSchema g r := by
  cases h : g.record? r with
  | none =>
    unfold check
    simp only [h, Except.ok.injEq, exists_eq_left', List.cons_ne_nil, false_iff]
    rintro ⟨⟨v, t, ⟨entries, he, -⟩, -⟩, -, -, -⟩
    simp [Graph.record?, he] at h
  | some record =>
    cases hp : field? record "properties" with
    | none =>
      unfold check
      simp only [h, hp, Except.ok.injEq, exists_eq_left', List.append_eq_nil_iff, List.cons_ne_nil,
        and_false, false_iff]
      rintro ⟨-, -, ⟨p, entries, hfield, -⟩, -⟩
      rw [(Graph.field?_eq_some_iff hg h).mpr hfield] at hp
      cases hp
    | some p =>
      cases hrec : g.record? p with
      | none =>
        have hno : ¬ IsSchema g r := by
          rintro ⟨-, -, ⟨p', entries, hp', he, -⟩, -⟩
          cases ((Graph.field?_eq_some_iff hg h).mp hp).unique hg hp'
          simp [Graph.record?, he] at hrec
        unfold check
        simp only [h, hp, hrec, hno, iff_false]
        rintro ⟨rep, hrep, hnil⟩
        split at hrep <;> cases hrep <;> simp [kindMismatch] at hnil
      | some properties =>
        exact (check_table_nil_iff h hp hrec).trans (parts_nil_iff hg h hp hrec)

end Check

/-! ## 4. Reading off -/

section Read

variable {g : Graph} (hg : g.Keyed)
include hg

variable {r : Ref} {record : List (Atom × Ref)}

/-- A text is read off exactly if the field holds it. -/
theorem textField?_eq_some_iff (h : g.record? r = some record) {name t : Text} :
    textField? g record name = some t ↔ ∃ v, g.Field r name v ∧ g.object v = .atom (.str t) := by
  simp only [← Graph.field?_eq_some_iff hg h]
  unfold textField?
  cases field? record name with
  | none => simp
  | some v =>
    simp only [Option.bind_some, Option.some.injEq, exists_eq_left', ← Graph.atom?_eq_some_iff]
    split
    · rename_i t' ht'
      simp [ht']
    · rename_i hother
      simpa using fun ht => hother t ht

/-- Where a field may hold only a text, reading it off gives what is there. -/
theorem optionalText_textField? (h : g.record? r = some record) {name : Text}
    (htext : ∀ v, g.Field r name v → ∃ t, g.object v = .atom (.str t)) :
    g.OptionalText r name (textField? g record name) := by
  cases ht : textField? g record name with
  | some t => exact (textField?_eq_some_iff hg h).mp ht
  | none =>
    intro v hv
    obtain ⟨t, hvt⟩ := htext v hv
    rw [(textField?_eq_some_iff hg h).mpr ⟨v, hv, hvt⟩] at ht
    cases ht

theorem textField?_of_optionalText (h : g.record? r = some record) {name : Text} {o : Option Text}
    (ho : g.OptionalText r name o) : textField? g record name = o := by
  cases o with
  | some t => exact (textField?_eq_some_iff hg h).mpr ho
  | none =>
    cases ht : textField? g record name with
    | none => rfl
    | some t =>
      obtain ⟨v, hv, -⟩ := (textField?_eq_some_iff hg h).mp ht
      exact absurd hv (ho v)

/-- Criteria describe exactly the property that is read off them. -/
theorem describesProperty_iff {p : Property} :
    DescribesProperty g r p ↔ IsCriteria g r ∧ propertyOf? g r = some p := by
  unfold propertyOf?
  constructor
  · rintro ⟨⟨v, name, hv, hn, ht⟩, hd, hk⟩
    obtain ⟨entries, he, -⟩ := id hv
    obtain ⟨record, h⟩ := Option.isSome_iff_exists.mp (Graph.record?_isSome_iff.mpr ⟨entries, he⟩)
    have htype := (textField?_eq_some_iff hg h).mpr ⟨v, hv, hn⟩
    have text : ∀ {name : Text} {o : Option Text}, g.OptionalText r name o →
        ∀ w, g.Field r name w → ∃ t, g.object w = .atom (.str t) := by
      intro name o ho w hw
      cases o with
      | none => exact absurd hw (ho w)
      | some t =>
        obtain ⟨w', hw', ht'⟩ := ho
        cases hw.unique hg hw'
        exact ⟨t, ht'⟩
    refine ⟨⟨⟨v, name, p.type, hv, hn, ht⟩, text hd, text hk⟩, ?_⟩
    rw [h, Option.bind_eq_bind, Option.bind_some, htype, Option.bind_eq_bind, Option.bind_some,
      resolve?_eq_some_iff.mpr ht, textField?_of_optionalText hg h hd,
      textField?_of_optionalText hg h hk]
    rfl
  · rintro ⟨hc, hp⟩
    obtain ⟨record, h, hp⟩ := Option.bind_eq_some_iff.mp hp
    obtain ⟨name, hname, hp⟩ := Option.bind_eq_some_iff.mp hp
    obtain ⟨t, ht, hp⟩ := Option.bind_eq_some_iff.mp hp
    cases hp
    obtain ⟨v, hv, hn⟩ := (textField?_eq_some_iff hg h).mp hname
    exact ⟨⟨v, name, hv, hn, resolve?_eq_some_iff.mp ht⟩,
      optionalText_textField? hg h hc.description, optionalText_textField? hg h hc.keyInto⟩

/-- All criteria have a property to read off. -/
theorem IsCriteria.propertyOf? (hc : IsCriteria g r) : ∃ p, Schema.propertyOf? g r = some p := by
  obtain ⟨v, name, t, hv, hn, ht⟩ := hc.type
  obtain ⟨entries, he, -⟩ := id hv
  obtain ⟨record, h⟩ := Option.isSome_iff_exists.mp (Graph.record?_isSome_iff.mpr ⟨entries, he⟩)
  have hp : DescribesProperty g r ⟨t, textField? g record "description",
      textField? g record "key_into"⟩ :=
    ⟨⟨v, name, hv, hn, ht⟩, optionalText_textField? hg h hc.description,
      optionalText_textField? hg h hc.keyInto⟩
  exact ⟨_, ((describesProperty_iff hg).mp hp).2⟩

theorem exists_propertiesOf? : ∀ {ps : List (Atom × Ref)},
    (∀ p ∈ ps, IsCriteria g p.2) → ∃ l, propertiesOf? g ps = some l
  | [] => fun _ => ⟨[], rfl⟩
  | p :: ps => fun hall => by
      obtain ⟨hp, hps⟩ := List.forall_mem_cons.mp hall
      obtain ⟨q, hq⟩ := hp.propertyOf? hg
      obtain ⟨rest, hrest⟩ := exists_propertiesOf? hps
      exact ⟨(p.1.keep, q) :: rest, by simp [propertiesOf?, hq, hrest]⟩

/-- Declarations are read off as a list of properties exactly if they describe it one by one. -/
theorem propertiesOf?_eq_some_iff : ∀ {ps : List (Atom × Ref)} {l : List (Atom × Property)},
    (∀ p ∈ ps, IsCriteria g p.2) → (propertiesOf? g ps = some l ↔
      List.Forall₂ (fun p q => q.1 = p.1.keep ∧ DescribesProperty g p.2 q.2) ps l)
  | [], l => fun _ => by
      rw [List.forall₂_nil_left_iff, propertiesOf?]
      exact ⟨fun e => (Option.some.inj e).symm, fun e => e ▸ rfl⟩
  | p :: ps, l => fun hall => by
      obtain ⟨hp, hps⟩ := List.forall_mem_cons.mp hall
      rw [List.forall₂_cons_left_iff, propertiesOf?]
      constructor
      · intro h
        obtain ⟨q, hq, h⟩ := Option.bind_eq_some_iff.mp h
        obtain ⟨rest, hrest, h⟩ := Option.bind_eq_some_iff.mp h
        cases h
        exact ⟨(p.1.keep, q), rest, ⟨rfl, (describesProperty_iff hg).mpr ⟨hp, hq⟩⟩,
          (propertiesOf?_eq_some_iff hps).mp hrest, rfl⟩
      · rintro ⟨⟨name, q⟩, rest, ⟨rfl, hq⟩, hrest, rfl⟩
        have hq' := ((describesProperty_iff hg).mp hq).2
        have hrest' := (propertiesOf?_eq_some_iff hps).mpr hrest
        simp only [hq', hrest', Option.bind_eq_bind, Option.bind_some]
        rfl

/-- The declarations of a mapping, once as the document has them and once as they are read off. -/
theorem forall₂_record_iff {entries : List (Ref × Ref)} (he : g.object r = .map entries)
    (h : g.record? r = some record) {l : List (Atom × Property)} :
    List.Forall₂ (fun p q => q.1 = p.1.keep ∧ DescribesProperty g p.2 q.2) record l ↔
      List.Forall₂ (fun e p => ∃ name, g.atom? e.1 = some name ∧ p.1 = name.keep ∧
        DescribesProperty g e.2 p.2) entries l := by
  simp only [Graph.record?, he, Option.some.injEq] at h
  subst h
  rw [List.forall₂_map_left_iff]
  have step : ∀ e ∈ entries, ∀ p : Atom × Property,
      (p.1 = ((g.atom? e.1).getD .null).keep ∧ DescribesProperty g e.2 p.2) ↔
        ∃ name, g.atom? e.1 = some name ∧ p.1 = name.keep ∧ DescribesProperty g e.2 p.2 := by
    intro e hmem p
    obtain ⟨name, hname⟩ := (hg r entries he).1 e hmem
    simp [hname]
  clear he
  induction entries generalizing l with
  | nil => simp
  | cons e es ih =>
    rw [List.forall₂_cons_left_iff, List.forall₂_cons_left_iff]
    refine exists_congr fun p => exists_congr fun ps => ?_
    exact and_congr (step e List.mem_cons_self p)
      (and_congr_left' (ih fun e' he' => step e' (List.mem_cons_of_mem e he')))

/-- **What a schema document describes.** It describes a schema exactly if it is a schema document
    and the schema is what is read off it. -/
theorem describes_iff {s : Schema} : Describes g r s ↔ IsSchema g r ∧ ofDocument? g r = some s := by
  constructor
  · rintro ⟨⟨vd, hd, hdt⟩, ⟨vu, items, hu, hui, hus⟩, hk, ⟨p, entries, hp, he, hall, hkey⟩⟩
    obtain ⟨top, htop, -⟩ := id hd
    obtain ⟨record, h⟩ := Option.isSome_iff_exists.mp (Graph.record?_isSome_iff.mpr ⟨top, htop⟩)
    obtain ⟨properties, hps⟩ :=
      Option.isSome_iff_exists.mp (Graph.record?_isSome_iff.mpr ⟨entries, he⟩)
    have hcriteria : ∀ e ∈ entries, IsCriteria g e.2 := by
      have heach : List.Forall₂ (fun e (_ : Atom × Property) => IsCriteria g e.2 ∧ True) entries
          s.properties := hall.imp fun {e q} heq => by
        obtain ⟨-, -, -, hq⟩ := heq
        exact ⟨((describesProperty_iff hg).mp hq).1, trivial⟩
      exact ((List.forall₂_and_left _ _).mp heach).1
    have hschema : IsSchema g r := by
      refine ⟨⟨vd, _, hd, hdt⟩, ⟨vu, items, hu, hui⟩, ⟨p, entries, hp, he, hcriteria⟩, ?_⟩
      intro v hv
      cases hpk : s.primaryKey with
      | none => exact absurd hv ((hpk ▸ hk : g.OptionalText r _ none) v)
      | some t =>
        obtain ⟨w, hw, ht⟩ := (hpk ▸ hk : g.OptionalText r _ (some t))
        cases hv.unique hg hw
        exact ⟨t, ht, p, entries, hp, he, hkey t hpk⟩
    refine ⟨hschema, ?_⟩
    have hread : propertiesOf? g properties = some s.properties := by
      refine (propertiesOf?_eq_some_iff hg ?_).mpr ((forall₂_record_iff hg he hps).mpr hall)
      simp only [Graph.record?, he, Option.some.injEq] at hps
      subst hps
      exact List.forall_mem_map.mpr hcriteria
    unfold ofDocument?
    simp only [h, Option.bind_eq_bind, Option.bind_some,
      (textField?_eq_some_iff hg h).mpr ⟨vd, hd, hdt⟩, (Graph.field?_eq_some_iff hg h).mpr hu, hui,
      (Graph.field?_eq_some_iff hg h).mpr hp, hps, hread, ← hus,
      textField?_of_optionalText hg h hk]
  · rintro ⟨⟨⟨vd, td, hd, hdt⟩, ⟨vu, items, hu, hui⟩, ⟨p, entries, hp, he, hall⟩, hprimary⟩, hread⟩
    obtain ⟨record, h, hread⟩ := Option.bind_eq_some_iff.mp hread
    obtain ⟨properties, hps⟩ :=
      Option.isSome_iff_exists.mp (Graph.record?_isSome_iff.mpr ⟨entries, he⟩)
    simp only [Option.bind_eq_bind, Option.bind_some,
      (textField?_eq_some_iff hg h).mpr ⟨vd, hd, hdt⟩, (Graph.field?_eq_some_iff hg h).mpr hu, hui,
      (Graph.field?_eq_some_iff hg h).mpr hp, hps] at hread
    obtain ⟨l, hl, hread⟩ := Option.bind_eq_some_iff.mp hread
    cases hread
    have hcriteria : ∀ q ∈ properties, IsCriteria g q.2 := by
      have hps' := hps
      simp only [Graph.record?, he, Option.some.injEq] at hps'
      subst hps'
      exact List.forall_mem_map.mpr hall
    have hl' := (forall₂_record_iff hg he hps).mp ((propertiesOf?_eq_some_iff hg hcriteria).mp hl)
    refine ⟨⟨vd, hd, hdt⟩, ⟨vu, items, hu, hui, rfl⟩, ?_, ⟨p, entries, hp, he, hl', ?_⟩⟩
    · exact optionalText_textField? hg h fun v hv => (hprimary v hv).imp fun t ht => ht.1
    · intro t ht
      obtain ⟨v, hv, hvt⟩ := (textField?_eq_some_iff hg h).mp ht
      obtain ⟨t', ht', p', es, hp', hes, hmem⟩ := hprimary v hv
      cases hvt.symm.trans ht'
      cases hp.unique hg hp'
      cases he.symm.trans hes
      exact hmem

/-- Every schema document describes a schema. -/
theorem IsSchema.describes (hs : IsSchema g r) : ∃ s, Describes g r s := by
  obtain ⟨⟨vd, td, hd, hdt⟩, ⟨vu, items, hu, hui⟩, ⟨p, entries, hp, he, hall⟩, -⟩ := id hs
  obtain ⟨top, htop, -⟩ := id hd
  obtain ⟨record, h⟩ := Option.isSome_iff_exists.mp (Graph.record?_isSome_iff.mpr ⟨top, htop⟩)
  obtain ⟨properties, hps⟩ :=
    Option.isSome_iff_exists.mp (Graph.record?_isSome_iff.mpr ⟨entries, he⟩)
  have hcriteria : ∀ q ∈ properties, IsCriteria g q.2 := by
    have hps' := hps
    simp only [Graph.record?, he, Option.some.injEq] at hps'
    subst hps'
    exact List.forall_mem_map.mpr hall
  obtain ⟨l, hl⟩ := exists_propertiesOf? hg hcriteria
  have hread : ofDocument? g r =
      some ⟨td, items.map g.outline, textField? g record "primary_key", l⟩ := by
    unfold ofDocument?
    simp only [h, Option.bind_eq_bind, Option.bind_some,
      (textField?_eq_some_iff hg h).mpr ⟨vd, hd, hdt⟩, (Graph.field?_eq_some_iff hg h).mpr hu, hui,
      (Graph.field?_eq_some_iff hg h).mpr hp, hps, hl]
  exact ⟨_, (describes_iff hg).mpr ⟨hs, hread⟩⟩

end Read

/-! ## 5. Compiling -/

/-- A text compiles to what its document describes, and to nothing else. -/
theorem compile_eq_ok_iff {text : List Char} {s : Schema} : compile text = .ok s ↔
    ∃ d, Markup.load text = .ok (some d) ∧ Describes d.graph d.root s := by
  unfold compile
  split
  · rename_i h
    simp [h]
  · rename_i f hf h
    simp [h]
  · rename_i h
    simp [h]
  · rename_i d h
    have hg := Markup.load_keyed h
    simp only [h, Except.ok.injEq, Option.some.injEq, exists_eq_left', describes_iff hg,
      ← check_nil_iff hg]
    split
    · rename_i hnull
      -- The check has something to say about null: it is no mapping.
      have hrec : d.graph.record? d.root = none := by
        cases hrec : d.graph.record? d.root with
        | none => rfl
        | some record =>
          obtain ⟨entries, he⟩ := Graph.record?_isSome_iff.mp (by rw [hrec]; rfl)
          rw [Graph.kind, he] at hnull
          cases hnull
      simp [check, hrec]
    · split
      · rename_i f hf
        simp [hf]
      · rename_i rep hrep
        split
        · rename_i hsome
          have hne : rep.lines ≠ [] := fun e => by
            rw [Report.hasLines_eq_false_iff.mpr e] at hsome
            cases hsome
          simp [hrep, hne]
        · rename_i hnone
          have hnil : rep.lines = [] := Report.hasLines_eq_false_iff.mp (by simpa using hnone)
          obtain ⟨s', hs'⟩ := ((check_nil_iff hg).mp ⟨rep, hrep, hnil⟩).describes hg
          rw [((describes_iff hg).mp hs').2]
          simp [hrep, hnil]

/-- **Compiling a schema.** A text compiles exactly if it holds a schema document, to the schema
    that the document describes; and a document that the check has nothing to say about is one that
    can be read off and describes what the text compiles to. -/
theorem compilation_decides (text : List Char) :
    ((∃ s, compile text = .ok s) ↔
      ∃ d, Markup.load text = .ok (some d) ∧ IsSchema d.graph d.root) ∧
    (∀ s, compile text = .ok s ↔
      ∃ d, Markup.load text = .ok (some d) ∧ Describes d.graph d.root s) ∧
    ∀ d, (Markup.load text = .ok (some d) ∧
        ∃ rep, check d.graph d.root = .ok rep ∧ rep.hasLines = false) ↔
      Markup.load text = .ok (some d) ∧
        ∃ s, ofDocument? d.graph d.root = some s ∧ Describes d.graph d.root s ∧
          compile text = .ok s := by
  refine ⟨?_, fun s => compile_eq_ok_iff, fun d => and_congr_right fun h => ?_⟩
  · constructor
    · rintro ⟨s, hs⟩
      obtain ⟨d, h, hd⟩ := compile_eq_ok_iff.mp hs
      exact ⟨d, h, ((describes_iff (Markup.load_keyed h)).mp hd).1⟩
    · rintro ⟨d, h, hd⟩
      obtain ⟨s, hs⟩ := hd.describes (Markup.load_keyed h)
      exact ⟨s, compile_eq_ok_iff.mpr ⟨d, h, hs⟩⟩
  · have hg := Markup.load_keyed h
    simp only [Report.hasLines_eq_false_iff]
    rw [check_nil_iff hg]
    constructor
    · intro hd
      obtain ⟨s, hs⟩ := hd.describes hg
      exact ⟨s, ((describes_iff hg).mp hs).2, hs, compile_eq_ok_iff.mpr ⟨d, h, hs⟩⟩
    · rintro ⟨s, -, hs, -⟩
      exact ((describes_iff hg).mp hs).1

end Schema

end Conform
