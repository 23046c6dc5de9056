import Conform.Proofs.Calendar
import Conform.Proofs.Markup.Precedence
import Conform.Proofs.Names

/-!
# Equality of keys

Keys are looked up by their classes. This file says which keys are equal without any classes, pair
by pair: numbers as exact fractions whatever their form, times with an offset by the distance of
their local times, and everything else only if it is the same (`Atom.Equals`). Both come to the same
(`Atom.sameKey_iff_equals`), so equality is an equivalence. Hence a key finds what was inserted last
under an equal key, and the names of a schema and the keys of a record meet in pairs, from whichever
side they are looked up (`lookups_rest_on_equality`).
-/

namespace Conform

/-! ## 1. Which keys are equal -/

namespace Atom

/-- A truth value, an integer or a finite double as a fraction. -/
def fraction? : Atom → Option (Int × Nat)
  | .bool b => some (if b then 1 else 0, 1)
  | .int i => some (i, 1)
  | .float (.finite negative m e) =>
    let n : Int := (m * 2 ^ e.toNat : Nat)
    some (if negative then -n else n, 2 ^ (-e).toNat)
  | _ => none

/-- Two keys are equal. Keys of two different forms are equal only if both are numbers. -/
inductive Equals : Atom → Atom → Prop where
  | null : Equals .null .null
  /-- Numbers are compared exactly, by multiplying crosswise. -/
  | number {a b : Atom} {p q : Int × Nat} (ha : a.fraction? = some p) (hb : b.fraction? = some q)
      (h : p.1 * q.2 = q.1 * p.2) : Equals a b
  | infinite (negative : Bool) : Equals (.float (.infinite negative)) (.float (.infinite negative))
  /-- A not-a-number is equal to itself only. -/
  | nan (origin : Double.Origin) : Equals (.float (.nan origin)) (.float (.nan origin))
  | text (t : Text) : Equals (.str t) (.str t)
  | bytes (bs : List UInt8) : Equals (.bytes bs) (.bytes bs)
  | day (d : Day) : Equals (.day d) (.day d)
  /-- Times without an offset are compared as they are written. -/
  | localTime {t u : Moment} (ht : t.offset = none) (hu : u.offset = none) (hday : t.day = u.day)
      (hclock : t.clock = u.clock) : Equals (.moment t) (.moment u)
  /-- Times with an offset are compared as instants: they are as far apart as their offsets. -/
  | instant {t u : Moment} {o o' : Offset} (ht : t.offset = some o) (hu : u.offset = some o')
      (h : t.localMicros - u.localMicros = (o.minutes - o'.minutes) * 60000000) :
      Equals (.moment t) (.moment u)

/-! ## 2. Equality and classes -/

/-- The class of a number is its fraction. -/
theorem keyClass_of_fraction? {a : Atom} {p : Int × Nat} (h : a.fraction? = some p) :
    a.keyClass = .number (mkRat p.1 p.2) ∧ p.2 ≠ 0 := by
  cases a with
  | bool b =>
    obtain rfl := Option.some.inj h
    cases b <;> exact ⟨rfl, Nat.one_ne_zero⟩
  | int i =>
    obtain rfl := Option.some.inj h
    exact ⟨congrArg KeyClass.number (Rat.mkRat_one i).symm, Nat.one_ne_zero⟩
  | float d =>
    cases d with
    | finite negative m e =>
      obtain rfl := Option.some.inj h
      refine ⟨congrArg KeyClass.number ?_, Nat.ne_of_gt (Nat.two_pow_pos _)⟩
      cases negative with
      | false => rfl
      | true => exact Rat.neg_mkRat _ _
    | nan o => cases h
    | infinite s => cases h
  | _ => cases h

theorem keyClass_of_offset {t : Moment} {o : Offset} (h : t.offset = some o) :
    (Atom.moment t).keyClass = .instant (t.localMicros - o.minutes * 60000000) := by
  simp [keyClass, Moment.instant?, h]

theorem keyClass_of_no_offset {t : Moment} (h : t.offset = none) :
    (Atom.moment t).keyClass = .localTime t.localMicros := by
  simp [keyClass, Moment.instant?, h]

/-- Equal keys have the same class. -/
theorem Equals.keyClass_eq {a b : Atom} (h : a.Equals b) : a.keyClass = b.keyClass := by
  cases h with
  | number ha hb h =>
    obtain ⟨hclass, hne⟩ := keyClass_of_fraction? ha
    obtain ⟨hclass', hne'⟩ := keyClass_of_fraction? hb
    rw [hclass, hclass', (Rat.mkRat_eq_iff hne hne').mpr h]
  | localTime ht hu hday hclock =>
    rw [keyClass_of_no_offset ht, keyClass_of_no_offset hu,
      Moment.localMicros_inj.mpr ⟨hday, hclock⟩]
  | instant ht hu h =>
    rw [keyClass_of_offset ht, keyClass_of_offset hu, KeyClass.instant.injEq]
    omega
  | _ => rfl

end Atom

/-- The atoms of a class. -/
def KeyClass.Holds (a : Atom) : KeyClass → Prop
  | .null => a = .null
  | .number q => ∃ p, a.fraction? = some p ∧ q = mkRat p.1 p.2 ∧ p.2 ≠ 0
  | .infinite negative => a = .float (.infinite negative)
  | .nan origin => a = .float (.nan origin)
  | .text t => a = .str t
  | .bytes bs => a = .bytes bs
  | .day d => a = .day d
  | .localTime micros => ∃ t, a = .moment t ∧ t.offset = none ∧ micros = t.localMicros
  | .instant micros => ∃ t o, a = .moment t ∧ t.offset = some o ∧
      micros = t.localMicros - o.minutes * 60000000

namespace Atom

/-- Every atom is in its class. -/
theorem holds_keyClass (a : Atom) : a.keyClass.Holds a := by
  have hnumber : ∀ {p}, a.fraction? = some p → a.keyClass.Holds a := by
    intro p hp
    obtain ⟨hclass, hne⟩ := keyClass_of_fraction? hp
    rw [hclass]
    exact ⟨p, hp, rfl, hne⟩
  cases a with
  | bool b => exact hnumber rfl
  | int i => exact hnumber rfl
  | float d =>
    cases d with
    | finite negative m e => exact hnumber rfl
    | _ => rfl
  | moment t =>
    cases ho : t.offset with
    | none =>
      rw [keyClass_of_no_offset ho]
      exact ⟨t, rfl, ho, rfl⟩
    | some o =>
      rw [keyClass_of_offset ho]
      exact ⟨t, o, rfl, ho, rfl⟩
  | _ => rfl

/-- **Two atoms are the same key exactly if they are equal.** -/
theorem sameKey_iff_equals {a b : Atom} : a.sameKey b = true ↔ a.Equals b := by
  rw [sameKey_iff]
  refine ⟨fun h => ?_, Equals.keyClass_eq⟩
  have ha := holds_keyClass a
  have hb := holds_keyClass b
  rw [h] at ha
  generalize b.keyClass = c at ha hb
  cases c with
  | null =>
    obtain rfl := ha
    obtain rfl := hb
    exact .null
  | number q =>
    obtain ⟨p, hp, hq, hne⟩ := ha
    obtain ⟨p', hp', hq', hne'⟩ := hb
    exact .number hp hp' ((Rat.mkRat_eq_iff hne hne').mp (hq.symm.trans hq'))
  | infinite negative =>
    obtain rfl := ha
    obtain rfl := hb
    exact .infinite negative
  | nan origin =>
    obtain rfl := ha
    obtain rfl := hb
    exact .nan origin
  | text t =>
    obtain rfl := ha
    obtain rfl := hb
    exact .text t
  | bytes bs =>
    obtain rfl := ha
    obtain rfl := hb
    exact .bytes bs
  | day d =>
    obtain rfl := ha
    obtain rfl := hb
    exact .day d
  | localTime micros =>
    obtain ⟨t, rfl, ht, hmicros⟩ := ha
    obtain ⟨u, rfl, hu, hmicros'⟩ := hb
    obtain ⟨hday, hclock⟩ := Moment.localMicros_inj.mp (hmicros.symm.trans hmicros')
    exact .localTime ht hu hday hclock
  | instant micros =>
    obtain ⟨t, o, rfl, ht, hmicros⟩ := ha
    obtain ⟨u, o', rfl, hu, hmicros'⟩ := hb
    exact .instant ht hu (by omega)

/-- **Equality of keys is an equivalence.** -/
theorem equals_equivalence : Equivalence Equals where
  refl a := sameKey_iff_equals.mp (sameKey_refl a)
  symm h := sameKey_iff_equals.mp (sameKey_symm (sameKey_iff_equals.mpr h))
  trans h h' :=
    sameKey_iff_equals.mp (sameKey_trans (sameKey_iff_equals.mpr h) (sameKey_iff_equals.mpr h'))

instance (a b : Atom) : Decidable (a.Equals b) :=
  decidable_of_iff (a.sameKey b = true) sameKey_iff_equals

/-- Above `2 ^ 53` an integer may have no equal double: it is not rounded to one. -/
example : (Atom.int (2 ^ 53)).Equals (.float (.finite false (2 ^ 52) 1)) ∧
    ¬ (Atom.int (2 ^ 53 + 1)).Equals (.float (.finite false (2 ^ 52) 1)) := by decide +kernel

end Atom

/-! ## 3. Looking keys up -/

section Lookup

variable {α β : Type}

/-- Equal keys find the same. -/
theorem fieldOf?_congr {key key' : Atom} (h : key.Equals key') (record : List (Atom × α)) :
    fieldOf? record key = fieldOf? record key' := by
  have hsame := Atom.sameKey_iff_equals.mpr h
  have heq : (fun k : Atom => k.sameKey key) = fun k => k.sameKey key' := funext fun k =>
    Bool.eq_iff_iff.mpr ⟨fun hk => Atom.sameKey_trans hk hsame,
      fun hk => Atom.sameKey_trans hk (Atom.sameKey_symm hsame)⟩
  rw [fieldOf?, fieldOf?, heq]

/-- **A key finds what was inserted last under an equal key.** -/
theorem fieldOf?_gatherPairs_iff {pairs : List (Atom × α)} {key : Atom} {v : α} :
    fieldOf? (gatherPairs Atom.sameKey pairs) key = some v ↔
      ∃ before k after, pairs = before ++ (k, v) :: after ∧ k.Equals key ∧
        ∀ p ∈ after, ¬ p.1.Equals key := by
  have hpicks : ∀ a b : Atom, Picks (fun k => k.sameKey key) Atom.sameKey a b := fun a b =>
    ⟨fun h => Bool.eq_iff_iff.mpr ⟨Atom.sameKey_trans (Atom.sameKey_symm h), Atom.sameKey_trans h⟩,
      fun ha hb => Atom.sameKey_trans ha (Atom.sameKey_symm hb)⟩
  rw [fieldOf?, lookupPair_gatherPairs fun p _ q _ => hpicks p.1 q.1, lookupPair,
    Option.map_eq_some_iff]
  simp only [List.find?_eq_some_iff_append, Bool.not_eq_true', ← Bool.not_eq_true,
    Atom.sameKey_iff_equals]
  constructor
  · rintro ⟨⟨k, v⟩, ⟨hk, behind, front, hpairs, hbehind⟩, rfl⟩
    refine ⟨front.reverse, k, behind.reverse, ?_, hk, fun p hp => ?_⟩
    · rw [← pairs.reverse_reverse, hpairs]
      simp
    · exact hbehind p (List.mem_reverse.mp hp)
  · rintro ⟨before, k, after, rfl, hk, hafter⟩
    exact ⟨(k, v), ⟨hk, after.reverse, before.reverse, by simp,
      fun p hp => hafter p (List.mem_reverse.mp hp)⟩, rfl⟩

variable {table : List (Atom × α)} {key : Atom}

/-- Where keys are distinct, a pair is found exactly if its key is equal. -/
theorem find?_eq_some_iff_equals (h : Distinct Atom.sameKey table) {p : Atom × α} (hp : p ∈ table) :
    table.find? (fun q => q.1.sameKey key) = some p ↔ p.1.Equals key := by
  rw [← Atom.sameKey_iff_equals]
  refine ⟨fun hfind => (List.find?_some hfind :), fun hk => ?_⟩
  cases hfind : table.find? fun q => q.1.sameKey key with
  | none => exact absurd hk (List.find?_eq_none.mp hfind p hp)
  | some q =>
    have hq := List.find?_some hfind
    exact congrArg some (h.eq_of_sameKey (List.mem_of_find?_eq_some hfind) hp
      (Atom.sameKey_trans hq (Atom.sameKey_symm hk)))

/-- Where keys are distinct, at most one of them is equal to a key. -/
theorem length_filter_equals_le (h : Distinct Atom.sameKey table) :
    (table.filter fun p => p.1.Equals key).length ≤ 1 := by
  have hdistinct : Distinct Atom.sameKey (table.filter fun p => p.1.Equals key) :=
    List.Pairwise.sublist List.filter_sublist h
  have hequal : ∀ p ∈ table.filter fun p => p.1.Equals key, p.1.Equals key := fun p hp =>
    of_decide_eq_true (List.mem_filter.mp hp).2
  generalize table.filter (fun p => p.1.Equals key) = found at hdistinct hequal ⊢
  match found with
  | [] => exact Nat.zero_le 1
  | [p] => exact Nat.le_refl 1
  | p :: q :: rest =>
    have hp := hequal p List.mem_cons_self
    have hq := hequal q (List.mem_cons_of_mem p List.mem_cons_self)
    have hsame := Atom.sameKey_iff_equals.mpr
      (Atom.equals_equivalence.trans hp (Atom.equals_equivalence.symm hq))
    rw [(List.pairwise_cons.mp hdistinct).1 q List.mem_cons_self] at hsame
    cases hsame

/-! ## 4. Names and fields -/

/-- The names of a table and the keys of a record meet in pairs: looking the names up in the record
    and looking the keys up in the table make out the same pairs, those of a name and a key that are
    equal, and no name and no key is in two of them. -/
structure MeetInPairs (names : List (Atom × α)) (record : List (Atom × β)) : Prop where
  byName : ∀ n ∈ names, ∀ f ∈ record,
    record.find? (fun f => f.1.sameKey n.1) = some f ↔ n.1.Equals f.1
  byKey : ∀ n ∈ names, ∀ f ∈ record,
    names.find? (fun n => n.1.sameKey f.1) = some n ↔ n.1.Equals f.1
  named : ∀ n ∈ names, (fieldOf? record n.1).isSome = true ↔ ∃ f ∈ record, n.1.Equals f.1
  declared : ∀ f ∈ record, (names.any fun n => n.1.sameKey f.1) = true ↔
    ∃ n ∈ names, n.1.Equals f.1
  oneKey : ∀ n ∈ names, (record.filter fun f => n.1.Equals f.1).length ≤ 1
  oneName : ∀ f ∈ record, (names.filter fun n => n.1.Equals f.1).length ≤ 1

theorem meetInPairs_of_distinct {names : List (Atom × α)} {record : List (Atom × β)}
    (hnames : Distinct Atom.sameKey names) (hrecord : Distinct Atom.sameKey record) :
    MeetInPairs names record := by
  have hcomm : ∀ a b : Atom, a.Equals b ↔ b.Equals a := fun a b =>
    ⟨Atom.equals_equivalence.symm, Atom.equals_equivalence.symm⟩
  refine ⟨fun n _ f hf => ?_, fun n hn f _ => find?_eq_some_iff_equals hnames hn, fun n _ => ?_,
    fun f _ => ?_, fun n _ => ?_, fun f _ => length_filter_equals_le hnames⟩
  · rw [find?_eq_some_iff_equals hrecord hf, hcomm]
  · simp only [fieldOf?, lookupPair, Option.isSome_map, List.find?_isSome, Atom.sameKey_iff_equals,
      hcomm n.1]
  · simp only [List.any_eq_true, Atom.sameKey_iff_equals]
  · simp only [hcomm n.1]
    exact length_filter_equals_le hrecord

end Lookup

/-! ## 5. Documents -/

namespace Markup.Making

/-- A pair of nodes, with the atom that its key has become. -/
def keyed (m : Making) (e : Ref × Ref) : Atom × Ref :=
  ((m.atom? e.1).getD .null, e.2)

/-- **A mapping is made by inserting its pairs**, one after the other, under the atoms that their
    keys have become. -/
theorem makePairs_gathers {m m' : Making} {ps es : List (Ref × Ref)} (hm : m.Keyed)
    (h : makePairs [] ps m = .ok (es, m')) : (∀ p ∈ ps, ∃ a, m'.atom? p.1 = some a) ∧
      es.map m'.keyed = gatherPairs Atom.sameKey (ps.map m'.keyed) := by
  obtain ⟨-, -, hatoms, rfl⟩ := makes_makePairs hm (fun _ he => absurd he List.not_mem_nil) h
  refine ⟨hatoms, ?_⟩
  have hsame : ∀ p ∈ ps, ∀ q ∈ ps, m'.sameKey p.1 q.1 =
      ((m'.atom? p.1).getD .null).sameKey ((m'.atom? q.1).getD .null) := by
    intro p hp q hq
    obtain ⟨a, ha⟩ := hatoms p hp
    obtain ⟨b, hb⟩ := hatoms q hq
    rw [sameKey_of_atoms ha hb, ha, hb]
    rfl
  exact (congrArg _ (gatherPairs_congr hsame)).trans
    (gatherPairs_map (f := fun k => (m'.atom? k).getD .null) (g := id) (fun _ _ => rfl) ps)

end Markup.Making

/-- The fields of an element of a document have distinct keys. -/
theorem distinct_of_element {text : List Char} {d : Markup.Document} {element : Ref}
    {fields : List (Atom × Kind)} (hload : Markup.load text = .ok (some d))
    (h : d.graph.element element = .record fields) : Distinct Atom.sameKey fields := by
  have hg := Markup.load_keyed hload
  by_cases hmap : ∃ entries, d.graph.object element = .map entries
  · obtain ⟨entries, hentries⟩ := hmap
    rw [element_of_map hentries] at h
    obtain rfl := Element.record.inj h
    exact distinct_fieldsOf hg hentries
  · rw [element_of_not_map fun entries hentries => hmap ⟨entries, hentries⟩] at h
    cases h

/-- **Lookups rest on an equality of keys.** The same key means an equal key, and that is an
    equivalence. So equal keys find the same, and in a mapping that is made by inserting pairs a key
    finds what was inserted last under an equal key; documents make their mappings in that way. The
    names of any table and the keys of any record meet in pairs, and so do the names of a schema and
    the keys of the records that are validated against it. -/
theorem lookups_rest_on_equality :
    (∀ a b : Atom, a.sameKey b = true ↔ a.Equals b) ∧ Equivalence Atom.Equals ∧
    (∀ (α : Type) (record : List (Atom × α)) (key key' : Atom), key.Equals key' →
      fieldOf? record key = fieldOf? record key') ∧
    (∀ (α : Type) (pairs : List (Atom × α)) (key : Atom) (v : α),
      fieldOf? (gatherPairs Atom.sameKey pairs) key = some v ↔
        ∃ (before : List (Atom × α)) (k : Atom) (after : List (Atom × α)),
          pairs = before ++ (k, v) :: after ∧ k.Equals key ∧ ∀ p ∈ after, ¬ p.1.Equals key) ∧
    (∀ (m m' : Markup.Making) (ps es : List (Ref × Ref)), m.Keyed →
      Markup.Making.makePairs [] ps m = .ok (es, m') →
      (∀ p ∈ ps, ∃ a, m'.atom? p.1 = some a) ∧
        es.map m'.keyed = gatherPairs Atom.sameKey (ps.map m'.keyed)) ∧
    (∀ (α β : Type) (ps : List (Atom × α)) (qs : List (Atom × β)),
      MeetInPairs (gatherPairs Atom.sameKey ps) (gatherPairs Atom.sameKey qs)) ∧
    ∀ (schemaText text : List Char) (s : Schema) (d : Markup.Document) (element : Ref)
      (fields : List (Atom × Kind)), Schema.compile schemaText = .ok s →
      Markup.load text = .ok (some d) → d.graph.element element = .record fields →
      MeetInPairs s.properties fields :=
  ⟨fun _ _ => Atom.sameKey_iff_equals, Atom.equals_equivalence,
    fun _ record _ _ h => fieldOf?_congr h record, fun _ _ _ _ => fieldOf?_gatherPairs_iff,
    fun _ _ _ _ hm h => Markup.Making.makePairs_gathers hm h,
    fun _ _ _ _ => meetInPairs_of_distinct (distinct_gatherPairs _) (distinct_gatherPairs _),
    fun _ _ _ _ _ _ hcompile hload h =>
      meetInPairs_of_distinct (Schema.compile_distinct hcompile) (distinct_of_element hload h)⟩

/-- A schema whose names are a number and a time in the first hour of a year. -/
def crossingSchema : List Char :=
  ("description: x\nused_by: []\nproperties:\n  1: \x7btype: String\x7d\n" ++
    "  2001-01-01T00:30:00+01:00: \x7btype: String\x7d").toList

/-- A record whose keys are a truth value, the same time in the last hour of the year before, and a
    double that is equal to the truth value. -/
def crossingRecord : List Char :=
  "- true: y\n  2000-12-31T23:30:00Z: z\n  1.0: a".toList

/-- The nodes of a mapping with an integer and a double as keys. -/
def crossingNodes : Array Markup.Node :=
  #[⟨.map, .mapping [(1, 2), (3, 4)]⟩, Markup.scalarNode .int "1", Markup.scalarNode .str "a",
    Markup.scalarNode .float "1.0", Markup.scalarNode .str "b"]

theorem crossing_keys_meet : ∃ s d fields m, Schema.compile crossingSchema = .ok s ∧
    Markup.load crossingRecord = .ok (some d) ∧ d.graph.element 1 = .record fields ∧
    (s.properties.length = 2 ∧ fields.length = 2 ∧
      ∀ n ∈ s.properties, ∃ f ∈ fields, n.1.Equals f.1) ∧
    MeetInPairs s.properties fields ∧ fieldOf? fields (.int 1) = fieldOf? fields (.bool true) ∧
    Markup.Making.makePairs [] [(1, 2), (3, 4)] (.start crossingNodes) = .ok ([(1, 4)], m) ∧
    [(1, 4)].map m.keyed = gatherPairs Atom.sameKey ([(1, 2), (3, 4)].map m.keyed) := by
  have evaluates : ∃ s ∈ (Schema.compile crossingSchema).toOption,
      ∃ d ∈ (Markup.load crossingRecord).toOption.join, ∃ record ∈ d.graph.record? 1,
      s.properties.length = 2 ∧ record.length = 2 ∧
        ∀ n ∈ s.properties, ∃ f ∈ record, n.1.Equals f.1 := by decide +kernel
  have made : (Markup.Making.makePairs [] [(1, 2), (3, 4)] (.start crossingNodes)).toOption.map
      (·.1) = some [(1, 4)] := by decide +kernel
  obtain ⟨s, hs, d, hd, record, hrecord, hnames, hlength, hall⟩ := evaluates
  obtain ⟨⟨_, m⟩, hm, rfl⟩ := Option.map_eq_some_iff.mp made
  obtain ⟨-, -, hcongr, -, hmake, -, hmeet⟩ := lookups_rest_on_equality
  have hfields : d.graph.element 1 = .record (record.map fun p => (p.1, d.graph.kind p.2)) := by
    rw [Graph.element, hrecord]
  refine ⟨s, d, _, m, eq_ok_of_toOption hs, eq_ok_of_join hd, hfields,
    ⟨hnames, by rw [List.length_map, hlength], fun n hn => ?_⟩,
    hmeet _ _ s d 1 _ (eq_ok_of_toOption hs) (eq_ok_of_join hd) hfields,
    hcongr _ _ (.int 1) (.bool true) (by decide +kernel), eq_ok_of_toOption hm,
    (hmake _ m _ _ (Markup.Making.keyed_start _) (eq_ok_of_toOption hm)).2⟩
  obtain ⟨f, hf, hequal⟩ := hall n hn
  exact ⟨_, List.mem_map_of_mem hf, hequal⟩

end Conform
