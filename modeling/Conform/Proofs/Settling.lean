import Conform.Validation
import Conform.Proofs.Conformance
import Conform.Proofs.Markup.Unvalued
import Conform.Proofs.Reach
import Conform.Proofs.SchemaDocument

/-!
# What the library answers for

An outcome is settled if it is a result or a rejection of the library's own; only a fault that is
none of the document as such gets out as it is. This file says for which texts that cannot happen.
A fault gets out of compiling and of validating in two ways: loading the text fails, but not because
it is no document, or an integer with too many digits has to be shown in a report (`settled_iff`).
In the first case the fault is that of a scalar: an escape or a version that is misread, a text that
denotes no value of its kind, or a mapping that stands for a scalar (`Markup.Culprit`).
-/

namespace Conform

/-- An outcome is a result, or a rejection about its subject. -/
def Settled {α : Type} (subject : Subject) : Except Failure α → Prop
  | .ok _ => True
  | .error (.rejected r) => r.subject = subject
  | .error (.faulted _) => False

instance {α : Type} {subject : Subject} : ∀ x : Except Failure α, Decidable (Settled subject x)
  | .ok _ => .isTrue trivial
  | .error (.rejected r) => inferInstanceAs (Decidable (r.subject = subject))
  | .error (.faulted _) => .isFalse id

/-- An atom is no integer with too many digits. -/
def Atom.Writable (a : Atom) : Prop :=
  ∀ i, a = .int i → Numeral.isWritable i = true

theorem Atom.shown?_isSome_iff {a : Atom} : a.shown?.isSome = true ↔ a.Writable := by
  cases a with
  | int i =>
    simp only [shown?, Numeral.written?, Option.isSome_map, Writable, Atom.int.injEq, forall_eq']
    cases Numeral.isWritable i <;> simp
  | _ => simp [shown?, Writable]

theorem Graph.writable_iff {g : Graph} {r : Ref} {a : Atom} (h : g.atom? r = some a) :
    g.Writable r ↔ a.Writable := by
  rw [atom?_eq_some_iff] at h
  simp [Graph.Writable, Atom.Writable, h]

instance (a : Atom) : Decidable a.Writable :=
  decidable_of_iff (a.shown?.isSome = true) Atom.shown?_isSome_iff

instance (g : Graph) (r : Ref) : Decidable (g.Writable r) :=
  decidable_of_iff (∀ a ∈ g.atom? r, a.Writable)
    ⟨fun h i hi => h _ (Graph.atom?_eq_some_iff.mpr hi) i rfl,
      fun h _ ha => (Graph.writable_iff ha).mp h⟩

namespace Markup

/-- A text is read to the end, or it is no document. -/
def Readable (text : List Char) : Prop :=
  ∀ f, load text = .error f → f = .malformed

/-- The fault that stops the reading of a text, unless it is that the text is no document. -/
def scalarFault? (text : List Char) : Option Fault :=
  match load text with
  | .error .malformed => none
  | .error f => some f
  | .ok _ => none

theorem scalarFault?_eq_none_iff {text : List Char} :
    scalarFault? text = none ↔ Readable text := by
  unfold scalarFault? Readable
  cases load text with
  | error f => cases f <;> simp
  | ok o => simp

instance (text : List Char) : Decidable (Readable text) :=
  decidable_of_iff _ scalarFault?_eq_none_iff

end Markup

namespace Schema

/-! ## 1. Compiling -/

/-- The properties of a schema document can be reported: every one that is faulty has a name that
    can be shown. -/
def ShowsProperties (g : Graph) (r : Ref) : Prop :=
  ∀ p entries, g.Field r "properties" p → g.object p = .map entries →
    ∀ e ∈ entries, ¬ IsCriteria g e.2 → g.Writable e.1

theorem checkProperty_isOk_iff {g : Graph} (hg : g.Keyed) {p : Atom × Ref} :
    (∃ rep, checkProperty g p = .ok rep) ↔ (¬ IsCriteria g p.2 → p.1.Writable) := by
  rw [← checkCriteria_eq_nil_iff hg, ← Atom.shown?_isSome_iff, checkProperty]
  cases checkCriteria g p.2 with
  | nil => simp
  | cons l ls => cases p.1.shown? <;> simp

theorem checkProperties_isOk_iff {g : Graph} (hg : g.Keyed) : ∀ {ps : List (Atom × Ref)},
    (∃ lines, checkProperties g ps = .ok lines) ↔
      ∀ p ∈ ps, ¬ IsCriteria g p.2 → p.1.Writable
  | [] => by simp [checkProperties]
  | p :: ps => by
      rw [List.forall_mem_cons, ← checkProperty_isOk_iff hg, ← checkProperties_isOk_iff hg,
        checkProperties, exists_bind_eq_ok]
      simp only [exists_bind_eq_ok, pure_eq_ok, exists_eq', and_true, exists_and_right]

/-- The check comes to an end exactly if what it has to report can be shown. -/
theorem check_isOk_iff {g : Graph} (hg : g.Keyed) {r : Ref} :
    (∃ rep, check g r = .ok rep) ↔ ShowsProperties g r := by
  unfold check ShowsProperties
  cases h : g.record? r with
  | none =>
    refine ⟨fun _ p entries hp => ?_, fun _ => ⟨_, rfl⟩⟩
    obtain ⟨top, he, -⟩ := hp
    simp [Graph.record?, he] at h
  | some record =>
    dsimp only
    cases hf : field? record "properties" with
    | none =>
      refine ⟨fun _ p entries hp => ?_, fun _ => ⟨_, rfl⟩⟩
      rw [(Graph.field?_eq_some_iff hg h).mpr hp] at hf
      cases hf
    | some p =>
      have hfield : g.Field r "properties" p := (Graph.field?_eq_some_iff hg h).mp hf
      dsimp only
      cases hrec : g.record? p with
      | none =>
        refine ⟨fun _ p' entries hp' he => ?_, fun _ => ?_⟩
        · cases hfield.unique hg hp'
          simp [Graph.record?, he] at hrec
        · split <;> exact ⟨_, rfl⟩
      | some properties =>
        obtain ⟨entries, hp⟩ := Graph.record?_isSome_iff.mp (by rw [hrec]; rfl)
        have hkind : g.kind p ≠ .null := by
          rw [Graph.kind, hp]
          exact fun e => by cases e
        rw [if_neg hkind]
        dsimp only
        have each : (∀ q ∈ properties, ¬ IsCriteria g q.2 → q.1.Writable) ↔
            ∀ e ∈ entries, ¬ IsCriteria g e.2 → g.Writable e.1 := by
          simp only [Graph.record?, hp, Option.some.injEq] at hrec
          subst hrec
          rw [List.forall_mem_map]
          refine forall₂_congr fun e he => imp_congr_right fun _ => ?_
          obtain ⟨a, ha⟩ := (hg p entries hp).1 e he
          rw [Graph.writable_iff ha, ha]
          rfl
        rw [exists_bind_eq_ok]
        simp only [Except.ok.injEq, exists_eq', and_true]
        rw [checkProperties_isOk_iff hg, each]
        constructor
        · intro hall p' es hp' he'
          cases hfield.unique hg hp'
          cases hp.symm.trans he'
          exact hall
        · exact fun hall => hall p entries hfield hp

/-- A loaded document compiles, or is rejected, exactly if the check comes to an end. -/
theorem compile_settled_of_load {text : List Char} {d : Markup.Document}
    (h : Markup.load text = .ok (some d)) :
    Settled .schema (compile text) ↔ ShowsProperties d.graph d.root := by
  have hg := Markup.load_keyed h
  rw [← check_isOk_iff hg]
  simp only [compile, h]
  by_cases hnull : d.graph.kind d.root = .null
  · rw [if_pos hnull]
    have hrec : d.graph.record? d.root = none := by
      cases hrec : d.graph.record? d.root with
      | none => rfl
      | some record =>
        obtain ⟨entries, he⟩ := Graph.record?_isSome_iff.mp (by rw [hrec]; rfl)
        rw [Graph.kind, he] at hnull
        cases hnull
    simp [check, hrec, Settled, unparsed, Rejection.of]
  · rw [if_neg hnull]
    cases hcheck : check d.graph d.root with
    | error f => simp [Settled]
    | ok rep =>
      simp only [Except.ok.injEq, exists_eq', iff_true]
      cases hlines : rep.hasLines with
      | true => exact rfl
      | false =>
        have hnil := Report.hasLines_eq_false_iff.mp hlines
        obtain ⟨s, hs⟩ := ((check_nil_iff hg).mp ⟨rep, hcheck, hnil⟩).describes hg
        rw [((describes_iff hg).mp hs).2]
        exact trivial

theorem compile_settled_iff {text : List Char} : Settled .schema (compile text) ↔
    Markup.Readable text ∧
      ∀ d, Markup.load text = .ok (some d) → ShowsProperties d.graph d.root := by
  cases h : Markup.load text with
  | error f =>
    cases f <;> simp [compile, h, Settled, Markup.Readable, unparsed, Rejection.of]
  | ok o =>
    have hread : Markup.Readable text := fun f hf => by
      rw [h] at hf
      cases hf
    cases o with
    | none => simp [compile, h, Settled, hread, unparsed, Rejection.of]
    | some d => simp [compile_settled_of_load h, hread]

/-! ## 2. Validating -/

/-- A value of an element has another type than the declared property of that name. -/
def Mistyped (g : Graph) (element : Ref) (p : Atom × Property) : Prop :=
  ∃ entries, g.object element = .map entries ∧ ∃ e ∈ entries, ∃ key, g.atom? e.1 = some key ∧
    key.sameKey p.1 = true ∧ ¬ p.2.type.Holds (g.object e.2)

/-- The block about an element can be shown: every integer that the element holds can be written,
    and so can the names of its mistyped properties. -/
def ShowsElement (s : Schema) (g : Graph) (element : Ref) : Prop :=
  (∀ r, g.Reaches element r → g.Writable r) ∧
    ∀ p ∈ s.properties, Mistyped g element p → p.1.Writable

/-- The atom that a violation names, if it does not name a text. -/
def Violation.name? : Violation → Option Atom
  | .notARecord _ => none
  | .missingKey _ => none
  | .wrongType name _ _ => some name
  | .unknownField name => some name

theorem Violation.line?_isSome_iff {v : Violation} :
    v.line?.isSome = true ↔ ∀ a, v.name? = some a → a.Writable := by
  cases v <;> simp [line?, name?, Atom.shown?_isSome_iff]

theorem exists_mapM_line?_iff : ∀ {vs : List Violation},
    (∃ lines, vs.mapM Violation.line? = some lines) ↔ ∀ v ∈ vs, v.line?.isSome = true
  | [] => by simp
  | v :: vs => by
      rw [List.forall_mem_cons, ← exists_mapM_line?_iff, List.mapM_cons]
      cases v.line? <;> cases vs.mapM Violation.line? <;> simp

theorem names_wrongType {fields : List (Atom × Kind)} {p : Atom × Property} {a : Atom} :
    (∃ v ∈ wrongType fields p, v.name? = some a) ↔ p.1 = a ∧ wrongType fields p ≠ [] := by
  unfold wrongType
  split
  · simp
  · split <;> simp [Violation.name?]

theorem names_unknownField {s : Schema} {f : Atom × Kind} {a : Atom} :
    (∃ v ∈ s.unknownField f, v.name? = some a) ↔ f.1 = a ∧ s.declares f.1 = false := by
  unfold unknownField
  split <;> simp_all [Violation.name?]

theorem names_missingKeys {s : Schema} {fields : List (Atom × Kind)} {a : Atom} :
    ¬ ∃ v ∈ s.missingKeys fields, v.name? = some a := by
  unfold missingKeys
  split
  · simp
  · split <;> simp [Violation.name?]

/-- The names in the violations of a record are those of its mistyped properties and its undeclared
    keys. -/
theorem names_of_violations {s : Schema} {g : Graph} (hg : g.Keyed) {element : Ref}
    {entries : List (Ref × Ref)} (h : g.object element = .map entries) {a : Atom} :
    (∃ v ∈ s.violations (g.element element), v.name? = some a) ↔
      (∃ p ∈ s.properties, p.1 = a ∧ Mistyped g element p) ∨
        ∃ e ∈ entries, g.atom? e.1 = some a ∧ s.declares a = false := by
  have mistyped : ∀ p, wrongType (fieldsOf g entries) p ≠ [] ↔ Mistyped g element p := by
    intro p
    rw [Ne, wrongType_eq_nil_iff (distinct_fieldsOf hg h)]
    simp only [Classical.not_forall, Mistyped]
    constructor
    · rintro ⟨f, hf, hsame, hno⟩
      obtain ⟨e, he, hk, hv⟩ := (mem_fieldsOf hg h).mp hf
      refine ⟨entries, h, e, he, f.1, hk, hsame, fun hh => hno ?_⟩
      rw [← hv]
      exact PropertyType.accepts_kind_iff.mpr hh
    · rintro ⟨es, hes, e, he, key, hk, hsame, hno⟩
      cases h.symm.trans hes
      have hf := (mem_fieldsOf hg h (f := (key, g.kind e.2))).mpr ⟨e, he, hk, rfl⟩
      exact ⟨_, hf, hsame, fun hacc => hno (PropertyType.accepts_kind_iff.mp hacc)⟩
  rw [element_of_map h, violations]
  simp only [List.mem_append, List.mem_flatMap]
  constructor
  · rintro ⟨v, (hv | ⟨p, hp, hv⟩) | ⟨f, hf, hv⟩, hn⟩
    · exact absurd ⟨v, hv, hn⟩ names_missingKeys
    · obtain ⟨hpa, hne⟩ := names_wrongType.mp ⟨v, hv, hn⟩
      exact .inl ⟨p, hp, hpa, (mistyped p).mp hne⟩
    · obtain ⟨rfl, hno⟩ := names_unknownField.mp ⟨v, hv, hn⟩
      obtain ⟨e, he, hk, -⟩ := (mem_fieldsOf hg h).mp hf
      exact .inr ⟨e, he, hk, hno⟩
  · rintro (⟨p, hp, hpa, hm⟩ | ⟨e, he, hk, hno⟩)
    · obtain ⟨v, hv, hn⟩ := names_wrongType.mpr ⟨hpa, (mistyped p).mpr hm⟩
      exact ⟨v, .inl (.inr ⟨p, hp, hv⟩), hn⟩
    · have hf := (mem_fieldsOf hg h (f := (a, g.kind e.2))).mpr ⟨e, he, hk, rfl⟩
      obtain ⟨v, hv, hn⟩ := (names_unknownField (f := (a, g.kind e.2))).mpr ⟨rfl, hno⟩
      exact ⟨v, .inr ⟨_, hf, hv⟩, hn⟩

/-- The lines about an element and the element itself can be written exactly if its block can be
    shown: undeclared keys are part of the element. -/
theorem showsElement_iff {s : Schema} {g : Graph} (hg : g.Keyed) {element : Ref} :
    ((∃ lines, s.elementLines? g element = some lines) ∧
      ∃ dump, g.dump element = .ok dump) ↔ s.ShowsElement g element := by
  simp only [elementLines?, exists_mapM_line?_iff, Violation.line?_isSome_iff, Graph.dump_isOk_iff,
    ShowsElement]
  rw [and_comm]
  refine and_congr_right fun hreach => ?_
  by_cases hm : ∃ entries, g.object element = .map entries
  · obtain ⟨entries, h⟩ := hm
    constructor
    · intro hall p hp hmis
      obtain ⟨v, hv, hn⟩ := (names_of_violations hg h).mpr (.inl ⟨p, hp, rfl, hmis⟩)
      exact hall v hv p.1 hn
    · intro hall v hv a hn
      rcases (names_of_violations hg h).mp ⟨v, hv, hn⟩ with ⟨p, hp, rfl, hmis⟩ | ⟨e, he, hk, -⟩
      · exact hall p hp hmis
      · have hpart : e.1 ∈ (g.object element).parts := by
          rw [h]
          exact List.mem_flatMap.mpr ⟨e, he, List.mem_cons_self⟩
        exact (Graph.writable_iff hk).mp (hreach e.1 (.step .refl hpart))
  · have hno : ∀ entries, g.object element ≠ .map entries := fun entries h => hm ⟨entries, h⟩
    rw [element_of_not_map hno]
    constructor
    · rintro - p - ⟨entries, h, -⟩
      exact absurd h (hno entries)
    · intro _ v hv a hn
      cases List.mem_singleton.mp hv
      cases hn

theorem examineElement_isOk_iff {s : Schema} {g : Graph} (hg : g.Keyed) {element : Ref} :
    (∃ report, s.examineElement g element = .ok report) ↔
      (¬ s.Conforms g element → s.ShowsElement g element) := by
  rw [← violations_eq_nil_iff hg, ← showsElement_iff hg, ← elementLines?_eq_nil_iff,
    examineElement]
  cases hl : s.elementLines? g element with
  | none => simp
  | some lines =>
    cases lines with
    | nil => simp
    | cons line lines => cases g.dump element <;> simp

theorem examineElements_isOk_iff {s : Schema} {g : Graph} (hg : g.Keyed) : ∀ {items : List Ref},
    (∃ lines, s.examineElements g items = .ok lines) ↔
      ∀ r ∈ items, ¬ s.Conforms g r → s.ShowsElement g r
  | [] => by simp [examineElements]
  | r :: rs => by
      rw [List.forall_mem_cons, ← examineElement_isOk_iff hg, ← examineElements_isOk_iff hg,
        examineElements, exists_bind_eq_ok]
      simp only [exists_bind_eq_ok, pure_eq_ok, exists_eq', and_true, exists_and_right]

/-- The elements of a document can be reported: the block about every one that does not conform can
    be shown. -/
def ShowsElements (s : Schema) (g : Graph) (r : Ref) : Prop :=
  ∀ items, g.object r = .list items →
    ∀ element ∈ items, ¬ s.Conforms g element → s.ShowsElement g element

theorem validate_settled_of_load {s : Schema} {text : List Char} {d : Markup.Document}
    (h : Markup.load text = .ok (some d)) :
    Settled .collection (s.validate text) ↔ s.ShowsElements d.graph d.root := by
  have hg := Markup.load_keyed h
  by_cases hlist : ∃ items, d.graph.object d.root = .list items
  · obtain ⟨items, hroot⟩ := hlist
    have hkind : d.graph.kind d.root ≠ .null := by
      rw [Graph.kind, hroot]
      exact fun e => by cases e
    have hshows : s.ShowsElements d.graph d.root ↔
        ∃ lines, s.examineElements d.graph items = .ok lines := by
      rw [examineElements_isOk_iff hg, ShowsElements, hroot]
      simp
    rw [hshows, validate, examine]
    simp only [h, hkind, if_false, hroot]
    cases s.examineElements d.graph items with
    | error f => simp [bind, Except.bind, Settled]
    | ok lines =>
      simp only [bind, Except.bind, Findings.verdict, Except.ok.injEq, exists_eq', iff_true]
      split
      · exact rfl
      · exact trivial
  · have hno : ∀ items, d.graph.object d.root ≠ .list items := fun items e => hlist ⟨items, e⟩
    have hshows : s.ShowsElements d.graph d.root := fun items e => absurd e (hno items)
    simp only [hshows, iff_true, validate, examine, h]
    split
    · exact rfl
    · exact rfl

theorem validate_settled_iff {s : Schema} {text : List Char} :
    Settled .collection (s.validate text) ↔ Markup.Readable text ∧
      ∀ d, Markup.load text = .ok (some d) → s.ShowsElements d.graph d.root := by
  cases h : Markup.load text with
  | error f =>
    cases f <;> simp [validate, examine, h, Settled, Markup.Readable, unparsedCollection,
      Rejection.of, bind, Except.bind]
  | ok o =>
    have hread : Markup.Readable text := fun f hf => by
      rw [h] at hf
      cases hf
    cases o with
    | none =>
      simp [validate, examine, h, Settled, hread, unparsedCollection, Rejection.of, bind,
        Except.bind]
    | some d => simp [validate_settled_of_load h, hread]

/-- A rejection by validation is about the collection. -/
theorem subject_of_validate {s : Schema} {text : List Char} {r : Rejection}
    (h : s.validate text = .error (.rejected r)) : r.subject = .collection := by
  rcases bind_eq_error.mp h with h | ⟨findings, -, h⟩
  · rcases examine_eq_rejected h with ⟨-, rfl⟩ | ⟨-, rfl⟩ | ⟨-, -, rfl⟩ <;> rfl
  · unfold Findings.verdict at h
    split at h <;> cases h
    rfl

theorem result_isOk_iff {s : Schema} {text : List Char} :
    (∃ r, s.result text = .ok r) ↔ Settled .collection (s.validate text) := by
  unfold result
  cases h : s.validate text with
  | ok u => simp [Settled]
  | error f =>
    cases f with
    | rejected r => simp [Settled, subject_of_validate h]
    | faulted f => simp [Settled]

/-! ## 3. What gets out -/

/-- **What the library answers for.** Compiling a text settles exactly if the text is readable and
    the names of its faulty properties can be shown; validating it settles, and checking it has a
    result, exactly if the text is readable and the blocks about its elements can be shown. What makes
    a text unreadable can be pointed at: an escape or a version that is misread, or a node that
    denotes no value. -/
theorem settled_iff (text : List Char) :
    (Settled .schema (compile text) ↔ Markup.Readable text ∧
      ∀ d, Markup.load text = .ok (some d) → ShowsProperties d.graph d.root) ∧
    (∀ s : Schema,
      (Settled .collection (s.validate text) ↔ Markup.Readable text ∧
        ∀ d, Markup.load text = .ok (some d) → s.ShowsElements d.graph d.root) ∧
      ((∃ r, s.result text = .ok r) ↔ Markup.Readable text ∧
        ∀ d, Markup.load text = .ok (some d) → s.ShowsElements d.graph d.root)) ∧
    ∀ f, Markup.load text = .error f → f = .malformed ∨ Markup.Culprit text f :=
  ⟨compile_settled_iff,
    fun _ => ⟨validate_settled_iff, result_isOk_iff.trans validate_settled_iff⟩,
    fun _ => (Markup.load_fails text).of_eq_error⟩

/-- The text of a mapping that is its own value never ends. -/
example : Markup.scalarFault? "&a !!str \x7b=: *a\x7d".toList = some .endless := by decide +kernel

/-- A schema with one property. -/
def smallSchema : List Char :=
  "description: x\nused_by: []\nproperties: \x7ba: \x7btype: String\x7d\x7d".toList

/-- A collection with a day of the thirteenth month. -/
def impossibleDay : List Char :=
  "- a: 2001-13-01".toList

/-- A day that does not exist is no fault of a document as such; it gets out of a schema as well as
    out of a collection, whose schema compiles. -/
theorem impossible_day_gets_out :
    ¬ Settled .schema (compile impossibleDay) ∧
      ∃ s, compile smallSchema = .ok s ∧ ¬ Settled .collection (s.validate impossibleDay) ∧
        ¬ ∃ r, s.result impossibleDay = .ok r := by
  have fails : ¬ Markup.Readable impossibleDay := by decide +kernel
  have compiles : (compile smallSchema).isOk = true := by decide +kernel
  obtain ⟨s, hs⟩ : ∃ s, compile smallSchema = .ok s := by
    revert compiles
    cases compile smallSchema with
    | error f => exact fun h => by cases h
    | ok s => exact fun _ => ⟨s, rfl⟩
  have unsettled : ¬ Settled .collection (s.validate impossibleDay) :=
    fun h => fails (validate_settled_iff.mp h).1
  refine ⟨fun h => ?_, s, hs, unsettled, fun h => ?_⟩
  · exact fails (compile_settled_iff.mp h).1
  · have settled := (@result_isOk_iff s impossibleDay).mp h
    exact unsettled settled

end Schema

end Conform
