import Mathlib.Data.List.Pairwise
import Conform.Proofs.Markup.Denoted
import Conform.Proofs.Settling

/-!
# Names of properties and keys of records

The names of the properties that a schema declares are keys of a loaded mapping, so no two of them
are the same (`compile_distinct`). A name and a key can be the same without being equal, because
truth values, integers and doubles are on one number line; but a name that is the same as a key that
can be shown can be shown, too (`writable_of_sameKey`).
-/

namespace Conform

/-! ## 1. Keys that are kept -/

namespace KeyClass

/-- A class of keys as a schema keeps it. -/
def keep : KeyClass → KeyClass
  | .nan (.computed n) => .nan (.kept n)
  | c => c

/-- Keeping brings no two classes together that a document can hold. -/
theorem keep_inj {c c' : KeyClass} (hc : ∀ n, c ≠ .nan (.kept n)) (hc' : ∀ n, c' ≠ .nan (.kept n))
    (h : c.keep = c'.keep) : c = c' := by
  unfold keep at h
  split at h <;> split at h
  · cases h
    rfl
  · exact absurd h.symm (hc' _)
  · exact absurd h (hc _)
  · exact h

end KeyClass

namespace Atom

theorem keyClass_moment (t : Moment) : (∃ i, (Atom.moment t).keyClass = .instant i) ∨
    ∃ i, (Atom.moment t).keyClass = .localTime i := by
  simp only [keyClass]
  cases t.instant? with
  | some i => exact .inl ⟨i, rfl⟩
  | none => exact .inr ⟨_, rfl⟩

theorem keyClass_keep (a : Atom) : a.keep.keyClass = a.keyClass.keep := by
  cases a with
  | float d =>
    cases d with
    | nan o => cases o <;> rfl
    | infinite s => rfl
    | finite s m e => rfl
  | moment t =>
    show (Atom.moment t).keyClass = (Atom.moment t).keyClass.keep
    rcases keyClass_moment t with ⟨i, hi⟩ | ⟨i, hi⟩ <;> rw [hi] <;> rfl
  | _ => rfl

theorem OfDocument.keyClass_ne {a : Atom} (h : a.OfDocument) (n : Nat) :
    a.keyClass ≠ .nan (.kept n) := by
  intro hc
  cases a with
  | float d =>
    cases d with
    | nan o =>
      cases hc
      exact (h _ rfl).fresh n rfl
    | infinite s => cases hc
    | finite s m e => cases hc
  | moment t => rcases keyClass_moment t with ⟨i, hi⟩ | ⟨i, hi⟩ <;> rw [hi] at hc <;> cases hc
  | _ => cases hc

/-- Keys of a document that a schema keeps as the same are the same. -/
theorem OfDocument.sameKey_of_keep {a b : Atom} (ha : a.OfDocument) (hb : b.OfDocument)
    (h : a.keep.sameKey b.keep = true) : a.sameKey b = true := by
  rw [sameKey_iff, keyClass_keep, keyClass_keep] at h
  exact sameKey_iff.mpr (KeyClass.keep_inj ha.keyClass_ne hb.keyClass_ne h)

/-! ## 2. Keys that can be shown -/

/-- **A name that is the same as a key of a document can be shown if the key can**: only an integer
    can have too many digits, and neither a truth value nor a double is the same as such an
    integer. -/
theorem writable_of_sameKey {key name : Atom} (hkey : key.OfDocument) (hw : key.Writable)
    (h : key.sameKey name = true) : name.Writable := by
  intro i hi
  subst hi
  rw [sameKey_iff] at h
  cases key with
  | int j =>
    have hj : (j : Rat) = (i : Rat) := KeyClass.number.inj h
    exact Rat.intCast_inj.mp hj ▸ hw j rfl
  | bool b =>
    cases b with
    | false =>
      have hi : ((0 : Int) : Rat) = (i : Rat) := KeyClass.number.inj h
      rw [← Rat.intCast_inj.mp hi]
      decide +kernel
    | true =>
      have hi : ((1 : Int) : Rat) = (i : Rat) := KeyClass.number.inj h
      rw [← Rat.intCast_inj.mp hi]
      decide +kernel
  | float d =>
    cases d with
    | nan o => cases h
    | infinite s => cases h
    | finite s m e =>
      refine Double.isWritable_of_value? (hkey _ rfl).bounded ?_
      exact congrArg some (KeyClass.number.inj h)
  | moment t => rcases keyClass_moment t with ⟨i, hi⟩ | ⟨i, hi⟩ <;> rw [hi] at h <;> cases h
  | _ => cases h

end Atom

/-! ## 3. Lists in step -/

section Step

variable {α β : Type} {R : α → β → Prop} {l : List α} {l' : List β}

theorem exists_right_of_mem (h : List.Forall₂ R l l') : ∀ a ∈ l, ∃ b ∈ l', R a b := by
  induction h with
  | nil => exact fun a ha => absurd ha List.not_mem_nil
  | cons hab _ ih =>
    refine List.forall_mem_cons.mpr ⟨⟨_, List.mem_cons_self, hab⟩, fun a ha => ?_⟩
    obtain ⟨b, hb, hR⟩ := ih a ha
    exact ⟨b, List.mem_cons_of_mem _ hb, hR⟩

theorem exists_left_of_mem (h : List.Forall₂ R l l') : ∀ b ∈ l', ∃ a ∈ l, R a b :=
  exists_right_of_mem h.flip

/-- What means the same for members in step means the same for all members. -/
theorem forall_mem_iff_of_forall₂ {P : α → Prop} {Q : β → Prop} (h : List.Forall₂ R l l')
    (hstep : ∀ a b, R a b → (P a ↔ Q b)) : (∀ a ∈ l, P a) ↔ ∀ b ∈ l', Q b := by
  induction h with
  | nil => simp
  | cons hab _ ih => rw [List.forall_mem_cons, List.forall_mem_cons, hstep _ _ hab, ih]

/-- What holds between any two members of a list holds, step by step, between those of the other. -/
theorem pairwise_of_forall₂ {S : α → α → Prop} {T : β → β → Prop} (h : List.Forall₂ R l l')
    (hstep : ∀ a a' b b', S a a' → R a b → R a' b' → T b b') (hl : l.Pairwise S) :
    l'.Pairwise T := by
  induction h with
  | nil => exact .nil
  | cons hab hrest ih =>
    obtain ⟨h₁, h₂⟩ := List.pairwise_cons.mp hl
    refine List.pairwise_cons.mpr ⟨fun b' hb' => ?_, ih h₂⟩
    obtain ⟨a', ha', hR⟩ := exists_left_of_mem hrest b' hb'
    exact hstep _ _ _ _ (h₁ a' ha') hab hR

end Step

/-! ## 4. Pairs with distinct keys -/

section Distinct

variable {α : Type} {l l' : List (Atom × α)}

theorem not_sameKey_symm {a b : Atom} (h : a.sameKey b = false) : b.sameKey a = false :=
  Bool.eq_false_iff.mpr fun hba => by
    rw [Atom.sameKey_symm hba] at h
    cases h

theorem Distinct.perm (h : Distinct Atom.sameKey l) (hl : l.Perm l') : Distinct Atom.sameKey l' :=
  hl.pairwise h not_sameKey_symm

/-- Pairs with the same key are one. -/
theorem Distinct.eq_of_sameKey (h : Distinct Atom.sameKey l) {p q : Atom × α} (hp : p ∈ l)
    (hq : q ∈ l) (hsame : p.1.sameKey q.1 = true) : p = q := by
  have : Std.Symm fun p q : Atom × α => p.1.sameKey q.1 = false := ⟨fun _ _ => not_sameKey_symm⟩
  by_contra hne
  have hfalse := h.forall hp hq hne
  rw [hfalse] at hsame
  cases hsame

end Distinct

namespace Schema

/-! ## 5. Names of a schema -/

/-- **No two names of a compiled schema are the same.** -/
theorem compile_distinct {text : List Char} {s : Schema} (h : compile text = .ok s) :
    Distinct Atom.sameKey s.properties := by
  obtain ⟨d, hload, hdescribes⟩ := compile_eq_ok_iff.mp h
  obtain ⟨p, entries, -, he, hall, -⟩ := hdescribes.properties
  obtain ⟨-, apart⟩ := Markup.load_keyed hload p entries he
  refine pairwise_of_forall₂ hall (fun e e' q q' hee hq hq' => ?_) apart
  obtain ⟨name, hname, heq, -⟩ := hq
  obtain ⟨name', hname', heq', -⟩ := hq'
  rw [Bool.eq_false_iff, heq, heq']
  intro hsame
  have := (Markup.load_ofDocument hload hname).sameKey_of_keep
    (Markup.load_ofDocument hload hname') hsame
  rw [hee name name' hname hname'] at this
  cases this

end Schema

end Conform
