import Conform.Proofs.Violations

/-!
# What a verdict depends on

Validation looks at two things in a schema: the primary key, and which name is declared with which
type. In a record it looks at the keys and at the kinds of their values. Neither the order of the
declarations nor the order of the keys matters to the verdict, and to the report only as the order
of its lines (`verdict_is_invariant`). Names that are the same key give the same verdict; for the
same lines they also have to be shown in the same way, which the number one and the truth value that
is the same key are not.
-/

namespace Conform

/-! ## 1. Lists that match in some order -/

/-- Every member of each list is related to one of the other. -/
def Matched {α β : Type} (R : α → β → Prop) (l : List α) (l' : List β) : Prop :=
  (∀ a ∈ l, ∃ b ∈ l', R a b) ∧ ∀ b ∈ l', ∃ a ∈ l, R a b

instance {α β : Type} (R : α → β → Prop) [∀ a b, Decidable (R a b)] (l : List α) (l' : List β) :
    Decidable (Matched R l l') :=
  inferInstanceAs (Decidable (_ ∧ _))

namespace Matched

variable {α β : Type} {R S : α → β → Prop} {l : List α} {l' : List β}

theorem mono (h : Matched R l l') (hRS : ∀ a b, R a b → S a b) : Matched S l l' :=
  ⟨fun a ha => (h.1 a ha).imp fun _ hb => ⟨hb.1, hRS _ _ hb.2⟩,
    fun b hb => (h.2 b hb).imp fun _ ha => ⟨ha.1, hRS _ _ ha.2⟩⟩

theorem flip (h : Matched R l l') : Matched (Function.swap R) l' l :=
  ⟨h.2, h.1⟩

theorem of_forall₂ (h : List.Forall₂ R l l') : Matched R l l' :=
  ⟨exists_right_of_mem h, exists_left_of_mem h⟩

theorem map {γ δ : Type} {S : γ → δ → Prop} {f : α → γ} {f' : β → δ} (h : Matched R l l')
    (hRS : ∀ a b, R a b → S (f a) (f' b)) : Matched S (l.map f) (l'.map f') := by
  constructor
  · rw [List.forall_mem_map]
    intro a ha
    obtain ⟨b, hb, hR⟩ := h.1 a ha
    exact ⟨f' b, List.mem_map_of_mem hb, hRS a b hR⟩
  · rw [List.forall_mem_map]
    intro b hb
    obtain ⟨a, ha, hR⟩ := h.2 b hb
    exact ⟨f a, List.mem_map_of_mem ha, hRS a b hR⟩

/-- What holds of related members both or neither holds of all members of both lists or neither. -/
theorem forall_iff {P : α → Prop} {Q : β → Prop} (h : Matched R l l')
    (hstep : ∀ a b, R a b → (P a ↔ Q b)) : (∀ a ∈ l, P a) ↔ ∀ b ∈ l', Q b := by
  constructor
  · intro hall b hb
    obtain ⟨a, ha, hR⟩ := h.2 b hb
    exact (hstep a b hR).mp (hall a ha)
  · intro hall a ha
    obtain ⟨b, hb, hR⟩ := h.1 a ha
    exact (hstep a b hR).mpr (hall b hb)

end Matched

/-- **Pairs with distinct keys that match are the same in some order.** -/
theorem exists_perm_of_matched {α β : Type} {R : Atom × α → Atom × β → Prop}
    (hR : ∀ p q, R p q → p.1.sameKey q.1 = true) : ∀ {l : List (Atom × α)} {l' : List (Atom × β)},
    Distinct Atom.sameKey l → Distinct Atom.sameKey l' → Matched R l l' →
    ∃ m, m.Perm l' ∧ List.Forall₂ R l m
  | [], l', _, _, h => by
      cases l' with
      | nil => exact ⟨[], .nil, .nil⟩
      | cons q l' =>
        obtain ⟨p, hp, -⟩ := h.2 q List.mem_cons_self
        cases hp
  | p :: l, l', hd, hd', h => by
      obtain ⟨hpl, hl⟩ := List.pairwise_cons.mp hd
      obtain ⟨q, hq, hpq⟩ := h.1 p List.mem_cons_self
      obtain ⟨front, back, rfl⟩ := List.append_of_mem hq
      have hperm : (q :: (front ++ back)).Perm (front ++ q :: back) := List.perm_middle.symm
      obtain ⟨hqr, hrest⟩ := List.pairwise_cons.mp (hd'.perm hperm.symm)
      -- the pair that the first one is related to is related to no other, and the other way round
      have hmatched : Matched R l (front ++ back) := by
        constructor
        · intro a ha
          obtain ⟨b, hb, hab⟩ := h.1 a (List.mem_cons_of_mem _ ha)
          rcases List.mem_cons.mp (hperm.mem_iff.mpr hb) with rfl | hb
          · have := Atom.sameKey_trans (hR _ _ hpq) (Atom.sameKey_symm (hR _ _ hab))
            rw [hpl a ha] at this
            cases this
          · exact ⟨b, hb, hab⟩
        · intro b hb
          obtain ⟨a, ha, hab⟩ := h.2 b (hperm.mem_iff.mp (List.mem_cons_of_mem _ hb))
          rcases List.mem_cons.mp ha with rfl | ha
          · have := Atom.sameKey_trans (Atom.sameKey_symm (hR _ _ hpq)) (hR _ _ hab)
            rw [hqr b hb] at this
            cases this
          · exact ⟨a, ha, hab⟩
      obtain ⟨m, hm, hforall⟩ := exists_perm_of_matched hR hl hrest hmatched
      exact ⟨q :: m, (hm.cons q).trans hperm, .cons hpq hforall⟩

/-! ## 2. Objects that agree -/

namespace Graph

/-- A correspondence between two graphs: objects that correspond are of the same kind, can be
    written both or neither, and hold objects that correspond, in whatever order. -/
structure Corresponds (g g' : Graph) (R : Ref → Ref → Prop) : Prop where
  kind : ∀ v v', R v v' → g.kind v = g'.kind v'
  writable : ∀ v v', R v v' → (g.Writable v ↔ g'.Writable v')
  parts : ∀ v v', R v v' → Matched R (g.object v).parts (g'.object v').parts

/-- Two objects agree, at any depth. -/
def Agree (g g' : Graph) (v v' : Ref) : Prop :=
  ∃ R, g.Corresponds g' R ∧ R v v'

/-- What an object holds at any depth is the object itself, or one of its parts holds it. -/
theorem Reaches.cases_head {g : Graph} {r q : Ref} (h : g.Reaches r q) :
    q = r ∨ ∃ p ∈ (g.object r).parts, g.Reaches p q := by
  induction h with
  | refl => exact .inl rfl
  | step _ hp ih =>
    rcases ih with rfl | ⟨p', hp', hreach⟩
    · exact .inr ⟨_, hp, .refl⟩
    · exact .inr ⟨p', hp', hreach.step hp⟩

section Agree

variable {g g' : Graph} {v v' : Ref}

theorem Agree.kind_eq (h : g.Agree g' v v') : g.kind v = g'.kind v' := by
  obtain ⟨R, hR, hv⟩ := h
  exact hR.kind v v' hv

/-- Whatever one of two objects that agree holds agrees with something that the other one holds. -/
theorem Corresponds.reaches {R : Ref → Ref → Prop} (hR : g.Corresponds g' R) (hv : R v v') {q : Ref}
    (hq : g.Reaches v q) : ∃ q', g'.Reaches v' q' ∧ R q q' := by
  induction hq with
  | refl => exact ⟨v', .refl, hv⟩
  | step _ hp ih =>
    obtain ⟨q', hq', hqq'⟩ := ih
    obtain ⟨p', hp', hpp'⟩ := (hR.parts _ _ hqq').1 _ hp
    exact ⟨p', hq'.step hp', hpp'⟩

theorem Corresponds.flip {R : Ref → Ref → Prop} (hR : g.Corresponds g' R) :
    g'.Corresponds g (Function.swap R) :=
  ⟨fun v v' h => (hR.kind v' v h).symm, fun v v' h => (hR.writable v' v h).symm,
    fun v v' h => (hR.parts v' v h).flip⟩

theorem Agree.symm (h : g.Agree g' v v') : g'.Agree g v' v := by
  obtain ⟨R, hR, hv⟩ := h
  exact ⟨Function.swap R, hR.flip, hv⟩

theorem Agree.writable (h : g.Agree g' v v') (hw : ∀ q, g.Reaches v q → g.Writable q) :
    ∀ q', g'.Reaches v' q' → g'.Writable q' := by
  obtain ⟨R, hR, hv⟩ := h
  intro q' hq'
  obtain ⟨q, hq, hqq'⟩ := hR.flip.reaches hv hq'
  exact (hR.writable q q' hqq').mp (hw q hq)

/-- The same scalar agrees with itself. -/
theorem agree_of_atom {a : Atom} (h : g.object v = .atom a) (h' : g'.object v' = .atom a) :
    g.Agree g' v v' := by
  refine ⟨fun x y => x = v ∧ y = v', ⟨?_, ?_, ?_⟩, rfl, rfl⟩
  · rintro _ _ ⟨rfl, rfl⟩
    rw [kind, kind, h, h']
  · rintro _ _ ⟨rfl, rfl⟩
    rw [writable_iff (atom?_eq_some_iff.mpr h), writable_iff (atom?_eq_some_iff.mpr h')]
  · rintro _ _ ⟨rfl, rfl⟩
    rw [h, h']
    exact ⟨fun _ hp => absurd hp List.not_mem_nil, fun _ hp => absurd hp List.not_mem_nil⟩

end Agree

end Graph

/-! ## 3. Schemas and records that are the same -/

/-- Two names are the same key. -/
def SameKey (a b : Atom) : Prop := a.sameKey b = true

/-- Two names are the same key and are shown in the same way. -/
def SameName (a b : Atom) : Prop := a.sameKey b = true ∧ a.shown? = b.shown?

instance : DecidableRel SameKey := fun a b => inferInstanceAs (Decidable (a.sameKey b = true))

instance : DecidableRel SameName := fun _ _ => inferInstanceAs (Decidable (_ ∧ _))

/-- Two declarations are the same: their names are, in some sense, and so are their types. -/
def SameRule (same : Atom → Atom → Prop) (p q : Atom × Property) : Prop :=
  same p.1 q.1 ∧ p.2.type = q.2.type

instance (same : Atom → Atom → Prop) [DecidableRel same] : DecidableRel (SameRule same) :=
  fun _ _ => inferInstanceAs (Decidable (_ ∧ _))

/-- Two fields are the same as far as validation is concerned. -/
def SameField (same : Atom → Atom → Prop) (f f' : Atom × Kind) : Prop :=
  same f.1 f'.1 ∧ f.2 = f'.2

/-- Two pairs are the same: their keys are, in some sense, and their values agree. -/
structure SamePair (same : Atom → Atom → Prop) (g g' : Graph) (e e' : Ref × Ref) : Prop where
  key : ∃ a a', g.atom? e.1 = some a ∧ g'.atom? e'.1 = some a' ∧ same a a'
  value : g.Agree g' e.2 e'.2

/-- Two schemas declare the same: the same primary key, and the same names with the same types. -/
structure SameSchema (same : Atom → Atom → Prop) (s s' : Schema) : Prop where
  primaryKey : s.primaryKey = s'.primaryKey
  rules : Matched (SameRule same) s.properties s'.properties

/-- Two objects are mappings that hold the same pairs, in any order. -/
def SameRecord (same : Atom → Atom → Prop) (g g' : Graph) (r r' : Ref) : Prop :=
  ∃ entries entries', g.object r = .map entries ∧ g'.object r' = .map entries' ∧
    Matched (SamePair same g g') entries entries'

section Pairs

variable {g g' : Graph} {e e' : Ref × Ref}

/-- Validation sees the same of the same pairs. -/
theorem SamePair.field {same : Atom → Atom → Prop} (h : SamePair same g g' e e') :
    SameField same ((g.atom? e.1).getD .null, g.kind e.2)
      ((g'.atom? e'.1).getD .null, g'.kind e'.2) := by
  obtain ⟨⟨a, a', ha, ha', hsame⟩, hvalue⟩ := h
  rw [ha, ha']
  exact ⟨hsame, hvalue.kind_eq⟩

theorem SamePair.symm (h : SamePair SameKey g g' e e') :
    SamePair SameKey g' g e' e := by
  obtain ⟨⟨a, a', ha, ha', hsame⟩, hvalue⟩ := h
  exact ⟨⟨a', a, ha', ha, Atom.sameKey_symm hsame⟩, hvalue.symm⟩

theorem SameRecord.symm {r r' : Ref} (h : SameRecord SameKey g g' r r') :
    SameRecord SameKey g' g r' r := by
  obtain ⟨entries, entries', hmap, hmap', hpairs⟩ := h
  exact ⟨entries', entries, hmap', hmap, hpairs.flip.mono fun _ _ => SamePair.symm⟩

theorem SamePair.weaken (h : SamePair SameName g g' e e') : SamePair SameKey g g' e e' := by
  obtain ⟨⟨a, a', ha, ha', hsame, -⟩, hvalue⟩ := h
  exact ⟨⟨a, a', ha, ha', hsame⟩, hvalue⟩

/-- Pairs of the same scalars are the same. -/
theorem samePair_of_atoms (hkey : (g.atom? e.1).isSome = true) (hkeys : g.atom? e.1 = g'.atom? e'.1)
    (hvalue : (g.atom? e.2).isSome = true) (hvalues : g.atom? e.2 = g'.atom? e'.2) :
    SamePair SameName g g' e e' := by
  obtain ⟨a, ha⟩ := Option.isSome_iff_exists.mp hkey
  obtain ⟨b, hb⟩ := Option.isSome_iff_exists.mp hvalue
  exact ⟨⟨a, a, ha, hkeys ▸ ha, Atom.sameKey_refl a, rfl⟩,
    Graph.agree_of_atom (Graph.atom?_eq_some_iff.mp hb) (Graph.atom?_eq_some_iff.mp (hvalues ▸ hb))⟩

end Pairs

namespace Schema

/-! ## 4. What validation makes of the same fields -/

section Fields

variable {s s' : Schema} {fields fields' : List (Atom × Kind)}
  (hd : Distinct Atom.sameKey fields) (hd' : Distinct Atom.sameKey fields')

section Verdict

variable (hf : Matched (SameField SameKey) fields fields')
include hd hd' hf

/-- In the same fields, lookups find the same. -/
theorem fieldOf?_congr {name name' : Atom} (hname : SameKey name name') :
    fieldOf? fields name = fieldOf? fields' name' := by
  ext k
  rw [fieldOf?_eq_some_iff hd, fieldOf?_eq_some_iff hd']
  constructor
  · rintro ⟨f, hmem, hsame, rfl⟩
    obtain ⟨f', hmem', hkey, hkind⟩ := hf.1 f hmem
    exact ⟨f', hmem', Atom.sameKey_trans (Atom.sameKey_symm hkey) (Atom.sameKey_trans hsame hname),
      hkind.symm⟩
  · rintro ⟨f', hmem', hsame, rfl⟩
    obtain ⟨f, hmem, hkey, hkind⟩ := hf.2 f' hmem'
    exact ⟨f, hmem, Atom.sameKey_trans hkey (Atom.sameKey_trans hsame (Atom.sameKey_symm hname)),
      hkind⟩

theorem missingKeys_congr (hkey : s.primaryKey = s'.primaryKey) :
    s.missingKeys fields = s'.missingKeys fields' := by
  unfold missingKeys
  rw [hkey]
  cases s'.primaryKey with
  | none => rfl
  | some name =>
    dsimp only
    rw [fieldOf?_congr hd hd' hf (Atom.sameKey_refl (.str name))]

omit hd hd' hf in
theorem declares_congr {key key' : Atom} (hs : SameSchema SameKey s s') (h : SameKey key key') :
    s.declares key = s'.declares key' := by
  rw [Bool.eq_iff_iff, declares, declares, List.any_eq_true, List.any_eq_true]
  constructor
  · rintro ⟨p, hp, hsame⟩
    obtain ⟨p', hp', hname, -⟩ := hs.rules.1 p hp
    exact ⟨p', hp', Atom.sameKey_trans (Atom.sameKey_symm hname) (Atom.sameKey_trans hsame h)⟩
  · rintro ⟨p', hp', hsame⟩
    obtain ⟨p, hp, hname, -⟩ := hs.rules.2 p' hp'
    exact ⟨p, hp, Atom.sameKey_trans hname (Atom.sameKey_trans hsame (Atom.sameKey_symm h))⟩

/-- The same schemas find something wrong with both records, or with neither. -/
theorem violations_eq_nil_congr (hs : SameSchema SameKey s s') :
    s.violations (.record fields) = [] ↔ s'.violations (.record fields') = [] := by
  have types : (∀ p ∈ s.properties, wrongType fields p = []) ↔
      ∀ p ∈ s'.properties, wrongType fields' p = [] :=
    hs.rules.forall_iff fun p p' hp => by
      unfold wrongType
      rw [fieldOf?_congr hd hd' hf hp.1, hp.2]
      cases fieldOf? fields' p'.1 with
      | none => exact Iff.rfl
      | some k => cases h : p'.2.type.accepts k <;> simp [h]
  have names : (∀ f ∈ fields, s.unknownField f = []) ↔ ∀ f ∈ fields', s'.unknownField f = [] :=
    hf.forall_iff fun f f' hff => by
      unfold unknownField
      rw [declares_congr hs hff.1]
      cases s'.declares f'.1 <;> simp
  simp only [violations, List.append_eq_nil_iff, List.flatMap_eq_nil_iff]
  rw [missingKeys_congr hd hd' hf hs.primaryKey, types, names]

end Verdict

section Lines

/-- Lists that are related step by step make the same lines if related members do. -/
theorem flatMap_filterMap_congr {α β γ δ : Type} {R : α → β → Prop} {f : α → List γ}
    {f' : β → List γ} {line? : γ → Option δ} {l : List α} {l' : List β} (h : List.Forall₂ R l l')
    (hstep : ∀ a b, R a b → (f a).filterMap line? = (f' b).filterMap line?) :
    (l.flatMap f).filterMap line? = (l'.flatMap f').filterMap line? := by
  induction h with
  | nil => rfl
  | cons hab _ ih =>
    rw [List.flatMap_cons, List.flatMap_cons, List.filterMap_append, List.filterMap_append,
      hstep _ _ hab, ih]

variable (hf : Matched (SameField SameName) fields fields')
include hd hd' hf

theorem wrongType_lines_congr {p p' : Atom × Property} (hp : SameRule SameName p p') :
    (wrongType fields p).filterMap Violation.line? =
      (wrongType fields' p').filterMap Violation.line? := by
  unfold wrongType
  rw [fieldOf?_congr hd hd' (hf.mono fun _ _ h => ⟨h.1.1, h.2⟩) hp.1.1, hp.2]
  cases fieldOf? fields' p'.1 with
  | none => rfl
  | some k =>
    cases h : p'.2.type.accepts k with
    | true => simp [h]
    | false => simp [h, Violation.line?, hp.1.2, List.filterMap_cons]

omit hd hd' hf in
theorem unknownField_lines_congr (hs : SameSchema SameName s s') {f f' : Atom × Kind}
    (h : SameField SameName f f') :
    (s.unknownField f).filterMap Violation.line? = (s'.unknownField f').filterMap Violation.line? := by
  unfold unknownField
  rw [declares_congr ⟨hs.primaryKey, hs.rules.mono fun _ _ h => ⟨h.1.1, h.2⟩⟩ h.1.1]
  cases s'.declares f'.1 with
  | true => simp
  | false => simp [Violation.line?, h.1.2, List.filterMap_cons]

/-- The same schemas make the same lines of the same fields, in the same order if declarations and
    fields stand in the same order. -/
theorem lines_perm (hs : SameSchema SameName s s') (hn : Distinct Atom.sameKey s.properties)
    (hn' : Distinct Atom.sameKey s'.properties) :
    ((s.violations (.record fields)).filterMap Violation.line?).Perm
      ((s'.violations (.record fields')).filterMap Violation.line?) ∧
    (List.Forall₂ (SameRule SameName) s.properties s'.properties →
      List.Forall₂ (SameField SameName) fields fields' →
      (s.violations (.record fields)).filterMap Violation.line? =
        (s'.violations (.record fields')).filterMap Violation.line?) := by
  have key := missingKeys_congr hd hd' (hf.mono fun _ _ h => ⟨h.1.1, h.2⟩) hs.primaryKey
  -- in whatever order the second schema and the second record are gone through
  have lines : ∀ {rules rest}, List.Forall₂ (SameRule SameName) s.properties rules →
      List.Forall₂ (SameField SameName) fields rest →
      (s.violations (.record fields)).filterMap Violation.line? =
        (s'.missingKeys fields' ++ rules.flatMap (wrongType fields') ++
          rest.flatMap s'.unknownField).filterMap Violation.line? := by
    intro rules rest hrules hrest
    simp only [violations, List.filterMap_append]
    rw [key, flatMap_filterMap_congr hrules fun p p' => wrongType_lines_congr hd hd' hf,
      flatMap_filterMap_congr hrest fun f f' => unknownField_lines_congr hs]
  refine ⟨?_, lines⟩
  obtain ⟨rules, hperm, hrules⟩ := exists_perm_of_matched (fun _ _ h => h.1.1) hn hn' hs.rules
  obtain ⟨rest, hperm', hrest⟩ := exists_perm_of_matched (fun _ _ h => h.1.1) hd hd' hf
  rw [lines hrules hrest]
  exact (((List.Perm.refl _).append (hperm.flatMap_right _)).append
    (hperm'.flatMap_right _)).filterMap _

end Lines

end Fields

/-! ## 5. The same elements -/

section Elements

variable {text text' : List Char} {d d' : Markup.Document} {s s' : Schema} {r r' : Ref}
  {entries entries' : List (Ref × Ref)}

theorem conforms_congr {g g' : Graph} (hg : g.Keyed) (hg' : g'.Keyed)
    (hs : SameSchema SameKey s s') (hr : SameRecord SameKey g g' r r') :
    s.Conforms g r ↔ s'.Conforms g' r' := by
  obtain ⟨entries, entries', hmap, hmap', hpairs⟩ := hr
  rw [← violations_eq_nil_iff hg, ← violations_eq_nil_iff hg', element_of_map hmap,
    element_of_map hmap']
  exact violations_eq_nil_congr (distinct_fieldsOf hg hmap) (distinct_fieldsOf hg' hmap')
    (hpairs.map fun _ _ => SamePair.field) hs

/-- A record can be shown exactly if everything in it can be written: names of properties are
    shown only if they are the same as keys. -/
theorem showsElement_of_map_iff (hload : Markup.load text = .ok (some d))
    (hmap : d.graph.object r = .map entries) :
    s.ShowsElement d.graph r ↔ ∀ q, d.graph.Reaches r q → d.graph.Writable q := by
  refine ⟨fun h => h.1, fun h => ⟨h, fun p _ hm => ?_⟩⟩
  obtain ⟨es, hes, e, he, key, hkey, hsame, hno⟩ := hm
  cases hmap.symm.trans hes
  have hpart : e.1 ∈ (d.graph.object r).parts := by
    rw [hmap]
    exact List.mem_flatMap.mpr ⟨e, he, List.mem_cons_self⟩
  exact writable_of_mistypes hload ⟨key, hkey, hsame, hno⟩ (h e.1 (.step .refl hpart))

/-- If everything in a record can be written, so can everything in the same record. -/
theorem writable_of_sameRecord (hload : Markup.load text = .ok (some d))
    (hr : SameRecord SameKey d.graph d'.graph r r')
    (hw : ∀ q, d.graph.Reaches r q → d.graph.Writable q) :
    ∀ q', d'.graph.Reaches r' q' → d'.graph.Writable q' := by
  obtain ⟨entries, entries', hmap, hmap', hpairs⟩ := hr
  intro q' hq'
  rcases hq'.cases_head with rfl | ⟨p', hp', hreach⟩
  · intro i hi
    cases hmap'.symm.trans hi
  · rw [hmap'] at hp'
    obtain ⟨e', he', hp'⟩ := List.mem_flatMap.mp hp'
    obtain ⟨e, he, ⟨a, a', ha, ha', hsame⟩, hvalue⟩ := hpairs.2 e' he'
    have hpart : ∀ p ∈ [e.1, e.2], ∀ q, d.graph.Reaches p q → d.graph.Writable q := by
      intro p hp q hq
      refine hw q (hq.head ?_)
      rw [hmap]
      exact List.mem_flatMap.mpr ⟨e, he, hp⟩
    rcases List.mem_pair.mp hp' with rfl | rfl
    · have hkey := (Graph.writable_iff ha).mp (hpart e.1 (by simp) e.1 .refl)
      have hobject := Graph.atom?_eq_some_iff.mp ha'
      rcases hreach.cases_head with rfl | ⟨p, hp, -⟩
      · exact (Graph.writable_iff ha').mpr
          (Atom.writable_of_sameKey (Markup.load_ofDocument hload ha) hkey hsame)
      · rw [hobject] at hp
        cases hp
    · exact hvalue.writable (hpart e.2 (by simp)) q' hreach

theorem showsElement_congr (hload : Markup.load text = .ok (some d))
    (hload' : Markup.load text' = .ok (some d')) (hr : SameRecord SameKey d.graph d'.graph r r') :
    s.ShowsElement d.graph r ↔ s'.ShowsElement d'.graph r' := by
  obtain ⟨entries, entries', hmap, hmap', -⟩ := id hr
  rw [showsElement_of_map_iff hload hmap, showsElement_of_map_iff hload' hmap']
  exact ⟨writable_of_sameRecord hload hr, writable_of_sameRecord hload' hr.symm⟩

/-- The lines of the same records under the same schemas are the same, in the same order if nothing
    is reordered. -/
theorem elementLines?_congr (hload : Markup.load text = .ok (some d))
    (hload' : Markup.load text' = .ok (some d')) (hs : SameSchema SameName s s')
    (hn : Distinct Atom.sameKey s.properties) (hn' : Distinct Atom.sameKey s'.properties)
    (hmap : d.graph.object r = .map entries) (hmap' : d'.graph.object r' = .map entries')
    (hpairs : Matched (SamePair SameName d.graph d'.graph) entries entries')
    (hshown : ∀ e ∈ entries, d.graph.Writable e.1) :
    ∃ lines lines', s.elementLines? d.graph r = some lines ∧
      s'.elementLines? d'.graph r' = some lines' ∧ lines.Perm lines' ∧
      (List.Forall₂ (SameRule SameName) s.properties s'.properties →
        List.Forall₂ (SamePair SameName d.graph d'.graph) entries entries' → lines = lines') := by
  have hshown' : ∀ e' ∈ entries', d'.graph.Writable e'.1 := by
    intro e' he'
    obtain ⟨e, he, ⟨a, a', ha, ha', -, hsame⟩, -⟩ := hpairs.2 e' he'
    rw [Graph.writable_iff ha', ← Atom.shown?_isSome_iff, ← hsame, Atom.shown?_isSome_iff,
      ← Graph.writable_iff ha]
    exact hshown e he
  obtain ⟨lines, hlines⟩ := exists_elementLines? (s := s) hload hmap hshown
  obtain ⟨lines', hlines'⟩ := exists_elementLines? (s := s') hload' hmap' hshown'
  obtain ⟨hperm, hordered⟩ := lines_perm (distinct_fieldsOf (Markup.load_keyed hload) hmap)
    (distinct_fieldsOf (Markup.load_keyed hload') hmap') (hpairs.map fun _ _ => SamePair.field) hs hn hn'
  have heq := filterMap_of_mapM hlines
  have heq' := filterMap_of_mapM hlines'
  rw [element_of_map hmap] at heq
  rw [element_of_map hmap'] at heq'
  refine ⟨lines, lines', hlines, hlines', heq ▸ heq' ▸ hperm, fun hrules hfields => ?_⟩
  rw [heq, heq']
  exact hordered hrules (List.forall₂_map_left_iff.mpr (List.forall₂_map_right_iff.mpr
    (hfields.imp fun _ _ => SamePair.field)))

end Elements

/-! ## 6. The same verdict -/

/-- The verdict of a validation: valid or not, unless it fails with a fault. -/
def verdict? (s : Schema) (text : List Char) : Option Bool :=
  match s.validate text with
  | .ok _ => some true
  | .error (.rejected _) => some false
  | .error (.faulted _) => none

section Verdict

variable {text text' : List Char} {d d' : Markup.Document} {s s' : Schema} {items items' : List Ref}

theorem verdict?_congr (hvalid : s.validate text = .ok () ↔ s'.validate text' = .ok ())
    (hsettled : Settled .collection (s.validate text) ↔ Settled .collection (s'.validate text')) :
    s.verdict? text = s'.verdict? text' := by
  unfold verdict?
  cases h : s.validate text with
  | ok u => rw [hvalid.mp h]
  | error f =>
    cases h' : s'.validate text' with
    | ok u' =>
      rw [h, h'] at hvalid
      cases hvalid.mpr rfl
    | error f' =>
      rw [h, h'] at hsettled
      cases f with
      | rejected rejection =>
        cases f' with
        | rejected rejection' => rfl
        | faulted fault' => exact absurd (hsettled.mp (subject_of_validate h)) id
      | faulted fault =>
        cases f' with
        | rejected rejection' => exact absurd (hsettled.mpr (subject_of_validate h')) id
        | faulted fault' => rfl

/-- A list is valid exactly if its elements conform. -/
theorem validate_of_load_iff (hload : Markup.load text = .ok (some d))
    (hroot : d.graph.object d.root = .list items) :
    s.validate text = .ok () ↔ ∀ r ∈ items, s.Conforms d.graph r := by
  rw [validate_eq_ok_iff]
  constructor
  · rintro ⟨d', items', hload', hroot', hall⟩
    cases hload.symm.trans hload'
    cases hroot.symm.trans hroot'
    exact hall
  · exact fun hall => ⟨d, items, hload, hroot, hall⟩

theorem settled_of_load_iff (hload : Markup.load text = .ok (some d))
    (hroot : d.graph.object d.root = .list items) :
    Settled .collection (s.validate text) ↔
      ∀ r ∈ items, ¬ s.Conforms d.graph r → s.ShowsElement d.graph r := by
  rw [validate_settled_of_load hload]
  constructor
  · exact fun h => h items hroot
  · intro h items' hroot'
    cases hroot.symm.trans hroot'
    exact h

/-- **A verdict depends on the primary key and the declared names with their types, and on no
    order.** Of two schemas that compile to the same primary key and the same names with the same
    types, and two collections whose records hold the same pairs, one is valid, invalid or fails
    exactly as the other. If in addition names are shown in the same way, the lines about the same
    records are the same in some order, and in the same order if neither declarations nor pairs are
    reordered. Both names of the type of integers declare the same type. -/
theorem verdict_is_invariant {schemaText schemaText' : List Char}
    (hcompile : compile schemaText = .ok s) (hcompile' : compile schemaText' = .ok s')
    (hload : Markup.load text = .ok (some d)) (hload' : Markup.load text' = .ok (some d'))
    (hroot : d.graph.object d.root = .list items) (hroot' : d'.graph.object d'.root = .list items')
    (hs : SameSchema SameKey s s')
    (hitems : List.Forall₂ (SameRecord SameKey d.graph d'.graph) items items') :
    s.verdict? text = s'.verdict? text' ∧
    (SameSchema SameName s s' → ∀ r r' entries entries', d.graph.object r = .map entries →
      d'.graph.object r' = .map entries' →
      Matched (SamePair SameName d.graph d'.graph) entries entries' →
      (∀ e ∈ entries, d.graph.Writable e.1) →
      ∃ lines lines', s.elementLines? d.graph r = some lines ∧
        s'.elementLines? d'.graph r' = some lines' ∧ lines.Perm lines' ∧
        (List.Forall₂ (SameRule SameName) s.properties s'.properties →
          List.Forall₂ (SamePair SameName d.graph d'.graph) entries entries' → lines = lines')) ∧
    PropertyType.resolve? "Fixnum" = PropertyType.resolve? "Integer" := by
  have hmatched := Matched.of_forall₂ hitems
  have hconforms : ∀ r r', SameRecord SameKey d.graph d'.graph r r' →
      (s.Conforms d.graph r ↔ s'.Conforms d'.graph r') := fun r r' =>
    conforms_congr (Markup.load_keyed hload) (Markup.load_keyed hload') hs
  refine ⟨verdict?_congr ?_ ?_, fun hnames r r' entries entries' hmap hmap' hpairs hshown => ?_,
    by decide⟩
  · rw [validate_of_load_iff hload hroot, validate_of_load_iff hload' hroot']
    exact hmatched.forall_iff hconforms
  · rw [settled_of_load_iff hload hroot, settled_of_load_iff hload' hroot']
    exact hmatched.forall_iff fun r r' hr =>
      imp_congr (not_congr (hconforms r r' hr)) (showsElement_congr hload hload' hr)
  · exact elementLines?_congr hload hload' hnames (compile_distinct hcompile)
      (compile_distinct hcompile') hmap hmap' hpairs hshown

end Verdict

/-- A schema with two properties. -/
def plainSchema : List Char :=
  ("description: x\nused_by: []\nprimary_key: id\n" ++
    "properties: \x7bid: \x7btype: Integer\x7d, t: \x7btype: String\x7d\x7d").toList

/-- The same declarations in another order, with the older name of a type and with more said. -/
def reorderedSchema : List Char :=
  ("description: y\nused_by: [z]\nowner: w\nproperties: \x7bt: \x7btype: String, description: v\x7d, " ++
    "id: \x7btype: Fixnum, key_into: u\x7d\x7d\nprimary_key: id\n").toList

/-- A record that violates both declarations and has two keys that are not declared. -/
def plainRecord : List Char := "- \x7bid: x, t: 5, b: 0, c: 0\x7d".toList

/-- The pairs of the record. -/
def plainEntries : List (Ref × Ref) := [(2, 3), (4, 5), (6, 7), (8, 9)]

/-- The same pairs in another order. -/
def reorderedRecord : List Char := "- \x7bc: 0, b: 0, t: 5, id: x\x7d".toList

theorem reordered_verdict : ∃ s s' d d' lines lines',
    compile plainSchema = .ok s ∧ compile reorderedSchema = .ok s' ∧
    Markup.load plainRecord = .ok (some d) ∧ Markup.load reorderedRecord = .ok (some d') ∧
    SameSchema SameName s s' ∧ SameRecord SameName d.graph d'.graph 1 1 ∧
    s.verdict? plainRecord = some false ∧ s'.verdict? reorderedRecord = some false ∧
    s.elementLines? d.graph 1 = some lines ∧ s'.elementLines? d'.graph 1 = some lines' ∧
    lines.Perm lines' := by
  have schemas : ∃ s ∈ (compile plainSchema).toOption,
      ∃ s' ∈ (compile reorderedSchema).toOption, s.primaryKey = s'.primaryKey ∧
      Matched (SameRule SameName) s.properties s'.properties ∧
      s.verdict? plainRecord = some false := by decide +kernel
  have records : ∃ d ∈ (Markup.load plainRecord).toOption.join,
      ∃ d' ∈ (Markup.load reorderedRecord).toOption.join,
      (d.graph.object d.root = .list [1] ∧ d.graph.object 1 = .map plainEntries) ∧
      (d'.graph.object d'.root = .list [1] ∧ d'.graph.object 1 = .map plainEntries) ∧
      (∀ e ∈ plainEntries, d.graph.Writable e.1) ∧
      Matched (fun e e' => (d.graph.atom? e.1).isSome = true ∧
        d.graph.atom? e.1 = d'.graph.atom? e'.1 ∧ (d.graph.atom? e.2).isSome = true ∧
        d.graph.atom? e.2 = d'.graph.atom? e'.2) plainEntries plainEntries := by decide +kernel
  obtain ⟨s, hs, s', hs', hkey, hrules, hverdict⟩ := schemas
  obtain ⟨d, hd, d', hd', ⟨hroot, hmap⟩, ⟨hroot', hmap'⟩, hshown, hpairs⟩ := records
  have hmatched := hpairs.mono fun e e' h => samePair_of_atoms h.1 h.2.1 h.2.2.1 h.2.2.2
  have hsame : SameSchema SameName s s' := ⟨hkey, hrules⟩
  have hload := eq_ok_of_join hd
  have hload' := eq_ok_of_join hd'
  obtain ⟨verdict, said, -⟩ := verdict_is_invariant (eq_ok_of_toOption hs) (eq_ok_of_toOption hs')
    hload hload' hroot hroot' ⟨hkey, hrules.mono fun _ _ h => ⟨h.1.1, h.2⟩⟩
    (.cons ⟨_, _, hmap, hmap', hmatched.mono fun _ _ h => h.weaken⟩ .nil)
  obtain ⟨lines, lines', hlines, hlines', hperm, -⟩ :=
    said hsame 1 1 _ _ hmap hmap' hmatched hshown
  exact ⟨s, s', d, d', lines, lines', eq_ok_of_toOption hs, eq_ok_of_toOption hs', hload, hload',
    hsame, ⟨_, _, hmap, hmap', hmatched⟩, hverdict, verdict ▸ hverdict, hlines, hlines', hperm⟩

end Schema

end Conform
