import Conform.Proofs.Blocks
import Conform.Proofs.Names

/-!
# What is said about a record

The lines about a record come out of two loops that look names up in opposite directions: the
properties of the schema are looked up among the keys of the record, and the keys among the
properties. This file says what comes of it without loops and lookups (`violations_are_exact`): the
missing primary key first; then one line for every property whose value has another type, in the
order of the schema; then one for every key that is not declared, in the order of the record. Since
names and keys pair one to one, every pair of the record accounts for one line at most
(`account_perm`).
-/

namespace Conform

/-! ## 1. Names of types -/

/-- The name of a type as the line about a value of another type has it. -/
def PropertyType.expected : PropertyType → String
  | .boolean => "boolean"
  | t => t.name

/-- **On a mismatch the two names differ**, though they are read off two tables. -/
theorem PropertyType.expected_ne {t : PropertyType} {k : Kind} (h : t.accepts k = false) :
    t.expected ≠ k.name ∧ t.name ≠ k.name := by
  revert h
  cases t <;> cases k <;> decide

namespace Schema

/-! ## 2. Pairs of a record -/

section Pairs

variable (s : Schema) (g : Graph)

/-- A pair has the name of a property as its key, and a value of another type. -/
def Mistypes (e : Ref × Ref) (p : Atom × Property) : Prop :=
  ∃ key, g.atom? e.1 = some key ∧ key.sameKey p.1 = true ∧ ¬ p.2.type.Holds (g.object e.2)

/-- The key of a pair is the name of no property. -/
def Undeclared (e : Ref × Ref) : Prop :=
  ∀ key, g.atom? e.1 = some key → ∀ p ∈ s.properties, p.1.sameKey key = false

/-- A pair is at fault: its key is not declared, or its value has another type than declared. -/
def AtFault (e : Ref × Ref) : Prop :=
  s.Undeclared g e ∨ ∃ p ∈ s.properties, Mistypes g e p

/-- The primary key is declared, and no key of the pairs is the same. -/
def Lacks (entries : List (Ref × Ref)) (name : Text) : Prop :=
  s.primaryKey = some name ∧
    ∀ e ∈ entries, ∀ key, g.atom? e.1 = some key → key.sameKey (.str name) = false

/-- The line about a pair whose value has another type: it names the property, the type that is
    expected and the type that is there, and these two have different names. -/
def IsMistypedLine (e : Ref × Ref) (p : Atom × Property) (line : Text) : Prop :=
  Mistypes g e p ∧ ∃ name, p.1.shown? = some name ∧
    p.2.type.expected ≠ (g.kind e.2).name ∧ p.2.type.name ≠ (g.kind e.2).name ∧
    line = name ++ Text.ofString (": should be " ++
      (if p.2.type = .boolean then p.2.type.expected else "of type " ++ p.2.type.expected) ++
      ", but is of type " ++ (g.kind e.2).name)

/-- The line about a pair whose key is not declared. -/
def IsUnknownLine (e : Ref × Ref) (line : Text) : Prop :=
  s.Undeclared g e ∧ ∃ key name, g.atom? e.1 = some key ∧ key.shown? = some name ∧
    line = Text.ofString "unknown field " ++ name ++ Text.ofString ":"

end Pairs

open scoped Classical in
/-- What the lines about a record say, in three parts: about the primary key, about the types of
    values, and about the names of keys. -/
structure Accounts (s : Schema) (g : Graph) (entries : List (Ref × Ref))
    (ofKey ofTypes ofNames : List Text) : Prop where
  /-- There is a line about the primary key if it is declared and equals no key, and only then. -/
  key : (∃ name, s.Lacks g entries name ∧
      ofKey = [Text.ofString "missing primary key field " ++ name ++ Text.ofString ":"]) ∨
    (∀ name, ¬ s.Lacks g entries name) ∧ ofKey = []
  /-- There is one line for every property with a value of another type, in the order of the
      schema. -/
  types : List.Forall₂ (fun p line => ∃ e ∈ entries, IsMistypedLine g e p line)
    (s.properties.filter fun p => ∃ e ∈ entries, Mistypes g e p) ofTypes
  /-- There is one line for every key that is not declared, in the order of the record. -/
  names : List.Forall₂ (s.IsUnknownLine g) (entries.filter fun e => s.Undeclared g e) ofNames
  /-- Behind the primary key, every pair at fault accounts for one line, and no other pair does. -/
  once : ∃ accounts, accounts.Perm (entries.filter fun e => s.AtFault g e) ∧
    List.Forall₂ (fun e line => (∃ p ∈ s.properties, IsMistypedLine g e p line) ∨
      s.IsUnknownLine g e line) accounts (ofTypes ++ ofNames)

/-! ## 3. The lines of a record -/

section Record

variable {s : Schema} {g : Graph} {element : Ref} {entries : List (Ref × Ref)}

/-- A property is not mistyped, or one pair mistypes it and is found. -/
theorem wrongType_cases (hg : g.Keyed) (hmap : g.object element = .map entries)
    (p : Atom × Property) :
    ((¬ ∃ e ∈ entries, Mistypes g e p) ∧ wrongType (fieldsOf g entries) p = []) ∨
      ∃ e ∈ entries, Mistypes g e p ∧
        wrongType (fieldsOf g entries) p = [.wrongType p.1 p.2.type (g.kind e.2)] := by
  have hd := distinct_fieldsOf hg hmap
  by_cases hm : ∃ e ∈ entries, Mistypes g e p
  · right
    obtain ⟨e, he, key, hkey, hsame, hno⟩ := hm
    have hf : (key, g.kind e.2) ∈ fieldsOf g entries :=
      (mem_fieldsOf hg hmap).mpr ⟨e, he, hkey, rfl⟩
    have hfield : fieldOf? (fieldsOf g entries) p.1 = some (g.kind e.2) :=
      fieldOf?_of_mem hd hf hsame
    have hacc : ¬ p.2.type.accepts (g.kind e.2) = true := fun hacc =>
      hno (PropertyType.accepts_kind_iff.mp hacc)
    refine ⟨e, he, ⟨key, hkey, hsame, hno⟩, ?_⟩
    rw [wrongType, hfield]
    exact if_neg hacc
  · left
    refine ⟨hm, (wrongType_eq_nil_iff hd).mpr fun f hf hsame => ?_⟩
    obtain ⟨e, he, hkey, hkind⟩ := (mem_fieldsOf hg hmap).mp hf
    by_contra hacc
    refine hm ⟨e, he, f.1, hkey, hsame, fun hh => hacc ?_⟩
    rw [← hkind]
    exact PropertyType.accepts_kind_iff.mpr hh

/-- A pair is declared, or it is not and its key is found to be unknown. -/
theorem unknownField_cases {e : Ref × Ref} {key : Atom} (hkey : g.atom? e.1 = some key) :
    (¬ s.Undeclared g e ∧ s.unknownField (key, g.kind e.2) = []) ∨
      s.Undeclared g e ∧ s.unknownField (key, g.kind e.2) = [.unknownField key] := by
  cases hdeclares : s.declares key with
  | true =>
    refine .inl ⟨fun h => ?_, if_pos hdeclares⟩
    obtain ⟨p, hp, hsame⟩ := List.any_eq_true.mp hdeclares
    rw [h key hkey p hp] at hsame
    cases hsame
  | false =>
    refine .inr ⟨fun key' hkey' p hp => ?_, if_neg (Bool.eq_false_iff.mp hdeclares)⟩
    cases hkey.symm.trans hkey'
    exact Bool.eq_false_iff.mpr (List.any_eq_false.mp hdeclares p hp)

theorem filterMap_of_mapM {α β : Type} {f : α → Option β} {l : List α} {l' : List β}
    (h : l.mapM f = some l') : l' = l.filterMap f := by
  have hsteps := forall₂_of_mapM h
  clear h
  induction hsteps with
  | nil => rfl
  | cons hb _ ih => rw [List.filterMap_cons_some hb, ← ih]

/-- A list of which some members make one entry each, and the others none. -/
theorem forall₂_filter_flatMap {α β : Type} {P : α → Prop} [DecidablePred P] {f : α → List β}
    {R : α → β → Prop} {l : List α}
    (h : ∀ a ∈ l, (¬ P a ∧ f a = []) ∨ (P a ∧ ∃ b, f a = [b] ∧ R a b)) :
    List.Forall₂ R (l.filter P) (l.flatMap f) := by
  induction l with
  | nil => exact .nil
  | cons a l ih =>
    obtain ⟨ha, hl⟩ := List.forall_mem_cons.mp h
    rw [List.flatMap_cons]
    rcases ha with ⟨hno, hf⟩ | ⟨hP, b, hf, hR⟩
    · rw [List.filter_cons_of_neg (by simpa using hno), hf]
      exact ih hl
    · rw [List.filter_cons_of_pos (by simpa using hP), hf]
      exact .cons hR (ih hl)

/-- What two lists have in common step by step makes a list in between. -/
theorem exists_between {α β γ : Type} {R : α → β → Prop} {S : β → γ → Prop} {l : List α}
    {l'' : List γ} (h : List.Forall₂ (fun a c => ∃ b, R a b ∧ S b c) l l'') :
    ∃ l', List.Forall₂ R l l' ∧ List.Forall₂ S l' l'' := by
  induction h with
  | nil => exact ⟨[], .nil, .nil⟩
  | cons hac _ ih =>
    obtain ⟨b, hR, hS⟩ := hac
    obtain ⟨l', hl, hl'⟩ := ih
    exact ⟨b :: l', .cons hR hl, .cons hS hl'⟩

end Record

section Loaded

variable {text : List Char} {s : Schema} {d : Markup.Document} {element : Ref}
  {entries : List (Ref × Ref)}

/-- The name of a property that a pair mistypes can be shown if the key of the pair can. -/
theorem writable_of_mistypes (hload : Markup.load text = .ok (some d)) {e : Ref × Ref}
    {p : Atom × Property} (h : Mistypes d.graph e p) (hshown : d.graph.Writable e.1) :
    p.1.Writable := by
  obtain ⟨key, hkey, hsame, -⟩ := h
  exact Atom.writable_of_sameKey (Markup.load_ofDocument hload hkey)
    ((Graph.writable_iff hkey).mp hshown) hsame

/-- Where the keys of a record can be shown, so can all its violations. -/
theorem exists_elementLines? (hload : Markup.load text = .ok (some d))
    (hmap : d.graph.object element = .map entries) (hshown : ∀ e ∈ entries, d.graph.Writable e.1) :
    ∃ lines, s.elementLines? d.graph element = some lines := by
  have hg := Markup.load_keyed hload
  refine exists_mapM_line?_iff.mpr fun v hv => Violation.line?_isSome_iff.mpr fun a ha => ?_
  rcases (names_of_violations hg hmap).mp ⟨v, hv, ha⟩ with ⟨p, -, rfl, hm⟩ | ⟨e, he, hkey, -⟩
  · obtain ⟨es, hes, e, he, hm⟩ := hm
    cases hmap.symm.trans hes
    exact writable_of_mistypes hload hm (hshown e he)
  · exact (Graph.writable_iff hkey).mp (hshown e he)

/-- The line about the primary key. -/
theorem key_lines (hg : d.graph.Keyed) (hmap : d.graph.object element = .map entries) :
    (∃ name, s.Lacks d.graph entries name ∧
      (s.missingKeys (fieldsOf d.graph entries)).filterMap Violation.line? =
        [Text.ofString "missing primary key field " ++ name ++ Text.ofString ":"]) ∨
    (∀ name, ¬ s.Lacks d.graph entries name) ∧
      (s.missingKeys (fieldsOf d.graph entries)).filterMap Violation.line? = [] := by
  unfold missingKeys
  cases hkey : s.primaryKey with
  | none =>
    refine .inr ⟨fun name hlacks => ?_, rfl⟩
    cases hkey.symm.trans hlacks.1
  | some name =>
    dsimp only
    cases hfield : fieldOf? (fieldsOf d.graph entries) (.str name) with
    | none =>
      refine .inl ⟨name, ⟨hkey, fun e he key hk => ?_⟩, rfl⟩
      have hf := (mem_fieldsOf hg hmap (f := (key, d.graph.kind e.2))).mpr ⟨e, he, hk, rfl⟩
      exact fieldOf?_eq_none_iff.mp hfield _ hf
    | some k =>
      refine .inr ⟨fun name' hlacks => ?_, rfl⟩
      cases hkey.symm.trans hlacks.1
      obtain ⟨f, hf, hsame, -⟩ := mem_of_fieldOf? hfield
      obtain ⟨e, he, hk, -⟩ := (mem_fieldsOf hg hmap).mp hf
      rw [hlacks.2 e he f.1 hk] at hsame
      cases hsame

open scoped Classical in
/-- The lines about the types of values. -/
theorem types_lines (hload : Markup.load text = .ok (some d))
    (hmap : d.graph.object element = .map entries) (hshown : ∀ e ∈ entries, d.graph.Writable e.1) :
    List.Forall₂ (fun p line => ∃ e ∈ entries, IsMistypedLine d.graph e p line)
      (s.properties.filter fun p => ∃ e ∈ entries, Mistypes d.graph e p)
      ((s.properties.flatMap (wrongType (fieldsOf d.graph entries))).filterMap
        Violation.line?) := by
  have hg := Markup.load_keyed hload
  rw [List.filterMap_flatMap]
  refine forall₂_filter_flatMap fun p _ => ?_
  rcases wrongType_cases hg hmap p with ⟨hno, hnil⟩ | ⟨e, he, hm, hone⟩
  · exact .inl ⟨hno, by rw [hnil]; rfl⟩
  · obtain ⟨name, hname⟩ := Option.isSome_iff_exists.mp
      (Atom.shown?_isSome_iff.mpr (writable_of_mistypes hload hm (hshown e he)))
    have hacc : p.2.type.accepts (d.graph.kind e.2) = false := by
      obtain ⟨_, _, _, hno⟩ := hm
      exact Bool.eq_false_iff.mpr fun hacc => hno (PropertyType.accepts_kind_iff.mp hacc)
    obtain ⟨hexpected, hown⟩ := PropertyType.expected_ne hacc
    refine .inr ⟨⟨e, he, hm⟩, _, ?_, e, he, hm, name, hname, hexpected, hown, rfl⟩
    rw [hone]
    refine List.filterMap_cons_some ?_
    rw [Violation.line?, hname]
    cases p.2.type <;> rfl

open scoped Classical in
/-- The lines about the names of keys. -/
theorem names_lines (hg : d.graph.Keyed) (hmap : d.graph.object element = .map entries)
    (hshown : ∀ e ∈ entries, d.graph.Writable e.1) :
    List.Forall₂ (s.IsUnknownLine d.graph) (entries.filter fun e => s.Undeclared d.graph e)
      (((fieldsOf d.graph entries).flatMap s.unknownField).filterMap Violation.line?) := by
  rw [List.filterMap_flatMap, fieldsOf, List.flatMap_map]
  refine forall₂_filter_flatMap fun e he => ?_
  obtain ⟨key, hkey⟩ := (hg element entries hmap).1 e he
  have hfield : ((d.graph.atom? e.1).getD .null, d.graph.kind e.2) = (key, d.graph.kind e.2) := by
    rw [hkey]
    rfl
  rw [hfield]
  rcases unknownField_cases hkey with ⟨hno, hnil⟩ | ⟨hun, hone⟩
  · exact .inl ⟨hno, by rw [hnil]; rfl⟩
  · obtain ⟨name, hname⟩ := Option.isSome_iff_exists.mp
      (Atom.shown?_isSome_iff.mpr ((Graph.writable_iff hkey).mp (hshown e he)))
    refine .inr ⟨hun, _, ?_, hun, key, name, hkey, hname, rfl⟩
    rw [hone]
    refine List.filterMap_cons_some ?_
    rw [Violation.line?, hname]
    rfl

/-- Pairs with the same key are one. -/
theorem eq_of_sameKey (hg : d.graph.Keyed) (hmap : d.graph.object element = .map entries)
    {e e' : Ref × Ref} (he : e ∈ entries) (he' : e' ∈ entries) {key key' : Atom}
    (hkey : d.graph.atom? e.1 = some key) (hkey' : d.graph.atom? e'.1 = some key')
    (hsame : key.sameKey key' = true) : e = e' := by
  obtain ⟨-, apart⟩ := hg element entries hmap
  have : Std.Symm fun p q : Ref × Ref => ∀ a b, d.graph.atom? p.1 = some a →
      d.graph.atom? q.1 = some b → a.sameKey b = false :=
    ⟨fun _ _ hpq a b ha hb => not_sameKey_symm (hpq b a hb ha)⟩
  by_contra hne
  have hfalse := apart.forall he he' hne key key' hkey hkey'
  rw [hfalse] at hsame
  cases hsame

theorem nodup_entries (hg : d.graph.Keyed) (hmap : d.graph.object element = .map entries) :
    entries.Nodup := by
  obtain ⟨atoms, apart⟩ := hg element entries hmap
  refine apart.imp_of_mem fun {p q} hp _ hpq heq => ?_
  subst heq
  obtain ⟨a, ha⟩ := atoms p hp
  have := hpq a a ha ha
  rw [Atom.sameKey_refl] at this
  cases this

open scoped Classical in
/-- **Names and keys pair one to one**: the pairs that mistype a property, and those that are not
    declared, are the pairs at fault, each of them once. -/
theorem account_perm (hs : Distinct Atom.sameKey s.properties) (hg : d.graph.Keyed)
    (hmap : d.graph.object element = .map entries) {mistyping : List (Ref × Ref)}
    (h : List.Forall₂ (fun p e => e ∈ entries ∧ Mistypes d.graph e p)
      (s.properties.filter fun p => ∃ e ∈ entries, Mistypes d.graph e p) mistyping) :
    (mistyping ++ entries.filter fun e => s.Undeclared d.graph e).Perm
      (entries.filter fun e => s.AtFault d.graph e) := by
  have hnodup := nodup_entries hg hmap
  -- a pair that mistypes two properties would make their names the same
  have hmistyping : mistyping.Nodup := by
    refine pairwise_of_forall₂ h ?_ (hs.sublist List.filter_sublist)
    rintro p p' e e' hapart ⟨-, key, hkey, hsame, -⟩ ⟨-, key', hkey', hsame', -⟩ rfl
    cases hkey.symm.trans hkey'
    have := Atom.sameKey_trans (Atom.sameKey_symm hsame) hsame'
    rw [hapart] at this
    cases this
  have happart : ∀ e ∈ mistyping, ∀ e' ∈ entries.filter fun e => s.Undeclared d.graph e, e ≠ e' := by
    rintro e he e' he' rfl
    obtain ⟨p, hp, -, key, hkey, hsame, -⟩ := exists_left_of_mem h e he
    have hun := of_decide_eq_true (List.mem_filter.mp he').2
    have := hun key hkey p (List.mem_filter.mp hp).1
    rw [Atom.sameKey_symm hsame] at this
    cases this
  refine (List.perm_ext_iff_of_nodup
    (List.nodup_append.mpr ⟨hmistyping, hnodup.filter _, happart⟩) (hnodup.filter _)).mpr fun e => ?_
  simp only [List.mem_append, List.mem_filter, decide_eq_true_eq]
  constructor
  · rintro (he | ⟨he, hun⟩)
    · obtain ⟨p, hp, hmem, hm⟩ := exists_left_of_mem h e he
      exact ⟨hmem, .inr ⟨p, (List.mem_filter.mp hp).1, hm⟩⟩
    · exact ⟨he, .inl hun⟩
  · rintro ⟨he, hun | ⟨p, hp, hm⟩⟩
    · exact .inr ⟨he, hun⟩
    · have hfilter : p ∈ s.properties.filter fun p => ∃ e ∈ entries, Mistypes d.graph e p :=
        List.mem_filter.mpr ⟨hp, decide_eq_true ⟨e, he, hm⟩⟩
      obtain ⟨e', he', hmem, hm'⟩ := exists_right_of_mem h p hfilter
      obtain ⟨key, hkey, hsame, -⟩ := hm
      obtain ⟨key', hkey', hsame', -⟩ := hm'
      have heq := eq_of_sameKey hg hmap he hmem hkey hkey'
        (Atom.sameKey_trans hsame (Atom.sameKey_symm hsame'))
      exact .inl (heq ▸ he')

open scoped Classical in
/-- **Every violation of a record is reported once, in this order.** Where the keys of a record can
    be shown, its lines are those about the primary key, the types of values and the names of keys,
    and nothing else. -/
theorem violations_are_exact {schemaText text : List Char} {s : Schema} {d : Markup.Document}
    (hs : compile schemaText = .ok s) (hload : Markup.load text = .ok (some d)) {element : Ref}
    {entries : List (Ref × Ref)} (hmap : d.graph.object element = .map entries)
    (hshown : ∀ e ∈ entries, d.graph.Writable e.1) :
    ∃ ofKey ofTypes ofNames,
      s.elementLines? d.graph element = some (ofKey ++ ofTypes ++ ofNames) ∧
      s.Accounts d.graph entries ofKey ofTypes ofNames ∧
      (ofKey ++ ofTypes ++ ofNames).length =
        (if ∃ name, s.Lacks d.graph entries name then 1 else 0) +
        (s.properties.filter fun p => ∃ e ∈ entries, Mistypes d.graph e p).length +
        (entries.filter fun e => s.Undeclared d.graph e).length := by
  have hg := Markup.load_keyed hload
  obtain ⟨lines, hlines⟩ := exists_elementLines? (s := s) hload hmap hshown
  have hkey := key_lines (s := s) hg hmap
  have htypes := types_lines (s := s) hload hmap hshown
  have hnames := names_lines (s := s) hg hmap hshown
  have heq := filterMap_of_mapM hlines
  rw [element_of_map hmap, violations, List.filterMap_append, List.filterMap_append] at heq
  have hpaired : List.Forall₂ (fun p line => ∃ e, (e ∈ entries ∧ Mistypes d.graph e p) ∧
      ∃ q ∈ s.properties, IsMistypedLine d.graph e q line)
      (s.properties.filter fun p => ∃ e ∈ entries, Mistypes d.graph e p) _ :=
    ((List.forall₂_and_left _ _).mpr ⟨fun p hp => (List.mem_filter.mp hp).1, htypes⟩).imp
      fun p line h => by
        obtain ⟨hp, e, he, hline⟩ := h
        exact ⟨e, ⟨he, hline.1⟩, p, hp, hline⟩
  obtain ⟨mistyping, hpairs, hsaid⟩ := exists_between hpaired
  refine ⟨_, _, _, heq ▸ hlines, ⟨hkey, htypes, hnames, _,
    account_perm (compile_distinct hs) hg hmap hpairs, ?_⟩, ?_⟩
  · exact List.rel_append (hsaid.imp fun _ _ => .inl) (hnames.imp fun _ _ => .inr)
  · rw [List.length_append, List.length_append, htypes.length_eq, hnames.length_eq]
    rcases hkey with ⟨name, hlacks, hone⟩ | ⟨hno, hnil⟩
    · rw [hone, if_pos ⟨name, hlacks⟩]
      rfl
    · rw [hnil, if_neg fun h => by
        obtain ⟨name, hlacks⟩ := h
        exact hno name hlacks]
      rfl

end Loaded

/-- A schema in which the number one names a property. -/
def numberedSchema : List Char :=
  ("description: x\nused_by: []\nprimary_key: id\n" ++
    "properties: \x7bid: \x7btype: Integer\x7d, 1: \x7btype: String\x7d, " ++
    "b: \x7btype: Boolean\x7d\x7d").toList

/-- A collection of one record: it has no primary key, a truth value as the key that is the same as
    the number one, another value of another type, and a key that is not declared. -/
def mixedRecord : List Char :=
  "- \x7btrue: 5, b: 1, c: x\x7d".toList

/-- What is said about the record. -/
def mixedRecordLines : List Text :=
  ["missing primary key field id:", "1: should be of type String, but is of type Integer",
    "b: should be boolean, but is of type Integer", "unknown field c:"]

theorem mixedRecord_violations : ∃ s d entries ofKey ofTypes ofNames,
    compile numberedSchema = .ok s ∧ Markup.load mixedRecord = .ok (some d) ∧
    d.graph.object 1 = .map entries ∧ (∀ e ∈ entries, d.graph.Writable e.1) ∧
    s.elementLines? d.graph 1 = some (ofKey ++ ofTypes ++ ofNames) ∧
    s.Accounts d.graph entries ofKey ofTypes ofNames ∧
    ofKey ++ ofTypes ++ ofNames = mixedRecordLines := by
  have evaluates : ∃ s ∈ (compile numberedSchema).toOption,
      ∃ d ∈ (Markup.load mixedRecord).toOption.join,
      d.graph.object 1 = .map [(2, 3), (4, 5), (6, 7)] ∧
      (∀ e ∈ [(2, 3), (4, 5), (6, 7)], d.graph.Writable (Prod.fst e)) ∧
      s.elementLines? d.graph 1 = some mixedRecordLines := by decide +kernel
  obtain ⟨s, hs, d, hd, hmap, hkeys, hlines⟩ := evaluates
  have hcompile := eq_ok_of_toOption hs
  have hload := eq_ok_of_join hd
  obtain ⟨ofKey, ofTypes, ofNames, hsome, haccounts, -⟩ :=
    violations_are_exact hcompile hload hmap hkeys
  exact ⟨s, d, _, ofKey, ofTypes, ofNames, hcompile, hload, hmap, hkeys, hsome, haccounts,
    Option.some.inj (hsome.symm.trans hlines)⟩

end Schema

end Conform
