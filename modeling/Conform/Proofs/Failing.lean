import Conform.Fault

/-!
# Steps that may fail

A sequence of steps succeeds exactly if each of them does. Everything that is read off a successful
run starts by taking it apart into its steps.
-/

namespace Conform

variable {ε α β : Type} {x : Except ε α} {f : α → Except ε β}

/-- A step that succeeds hands its result on. -/
@[simp] theorem ok_bind (a : α) (f : α → Except ε β) : Except.ok a >>= f = f a := rfl

/-- Two steps succeed if the first does and the second does behind it. -/
theorem bind_eq_ok {r : β} : x >>= f = .ok r ↔ ∃ a, x = .ok a ∧ f a = .ok r := by
  cases x with
  | ok a => exact ⟨fun h => ⟨a, rfl, h⟩, by rintro ⟨_, ⟨⟩, h⟩; exact h⟩
  | error e =>
    constructor
    · intro h
      cases h
    · rintro ⟨_, ⟨⟩, _⟩

/-- Two steps come to a result exactly if both do. -/
theorem exists_bind_eq_ok :
    (∃ b, x >>= f = .ok b) ↔ ∃ a, x = .ok a ∧ ∃ b, f a = .ok b := by
  constructor
  · rintro ⟨b, h⟩
    obtain ⟨a, h₁, h₂⟩ := bind_eq_ok.mp h
    exact ⟨a, h₁, b, h₂⟩
  · rintro ⟨a, h₁, b, h₂⟩
    exact ⟨b, bind_eq_ok.mpr ⟨a, h₁, h₂⟩⟩

/-- Two steps fail if the first does, or the second behind it. -/
theorem bind_eq_error {e : ε} :
    x >>= f = .error e ↔ x = .error e ∨ ∃ a, x = .ok a ∧ f a = .error e := by
  cases x with
  | ok a => exact ⟨fun h => Or.inr ⟨a, rfl, h⟩, by rintro (⟨⟨⟩⟩ | ⟨_, ⟨⟩, h⟩); exact h⟩
  | error e' =>
    constructor
    · intro h
      cases h
      exact Or.inl rfl
    · rintro (⟨⟨⟩⟩ | ⟨_, ⟨⟩, _⟩)
      rfl

/-- A result that is changed was a success. -/
theorem map_eq_ok {g : α → β} {r : β} : x.map g = .ok r ↔ ∃ a, x = .ok a ∧ g a = r := by
  cases x with
  | ok a =>
    constructor
    · intro h
      exact ⟨a, rfl, Except.ok.inj h⟩
    · rintro ⟨_, ⟨⟩, rfl⟩
      rfl
  | error e =>
    constructor
    · intro h
      cases h
    · rintro ⟨_, ⟨⟩, _⟩

/-- **Two runs, step by step.** If the first step of another run is a change of the first step, and
    what follows is a change of what follows, so is the whole. -/
theorem bind_map {α' β' : Type} {y : Except ε α'} {g : α' → Except ε β'} {k : α → α'} {l : β → β'}
    (hy : y = x.map k) (hg : ∀ a, x = .ok a → g (k a) = (f a).map l) :
    y >>= g = (x >>= f).map l := by
  subst hy
  cases x with
  | ok a => exact hg a rfl
  | error e => rfl

@[simp] theorem pure_eq_ok {a b : α} : (pure a : Except ε α) = .ok b ↔ a = b :=
  ⟨fun h => by cases h; rfl, fun h => by rw [h]; rfl⟩

/-- Why a step failed, if it did. -/
def errorOf? : Except ε α → Option ε
  | .ok _ => none
  | .error e => some e

theorem errorOf?_eq_some_iff {e : ε} : errorOf? x = some e ↔ x = .error e := by
  cases x <;> simp [errorOf?]

/-- What can be taken out of a result was a success. -/
theorem eq_ok_of_toOption {a : α} (h : x.toOption = some a) : x = .ok a := by
  cases x with
  | error e => cases h
  | ok b => exact congrArg Except.ok (Option.some.inj h)

/-- What is read off a result that is there was a success. -/
theorem eq_ok_of_join {x : Except ε (Option α)} {a : α} (h : x.toOption.join = some a) :
    x = .ok (some a) := by
  cases x with
  | error e => cases h
  | ok o => exact congrArg Except.ok h

/-! ## What is known of both ends

A fault has a cause as a result has a property; both are carried through a sequence of steps
together. -/

/-- The results of a step have one property, and its faults another. -/
def Delivers (P : α → Prop) (E : ε → Prop) : Except ε α → Prop
  | .ok a => P a
  | .error e => E e

namespace Delivers

variable {P : α → Prop} {Q : β → Prop} {E F : ε → Prop}

theorem of_eq_error {e : ε} (h : Delivers P E x) (hx : x = .error e) : E e := by
  rw [hx] at h
  exact h

/-- Two steps, of which the second follows a result of the first. -/
theorem bind (hx : Delivers P E x) (hf : ∀ a, x = .ok a → P a → Delivers Q E (f a)) :
    Delivers Q E (x >>= f) := by
  cases x with
  | ok a => exact hf a rfl hx
  | error e => exact hx

/-- One of two steps. -/
theorem ite {c : Prop} [Decidable c] {y : Except ε α} (hx : c → Delivers P E x)
    (hy : ¬ c → Delivers P E y) : Delivers P E (if c then x else y) := by
  split
  · exact hx ‹_›
  · exact hy ‹_›

theorem mono {P' : α → Prop} (h : Delivers P E x) (hp : ∀ a, x = .ok a → P a → P' a)
    (he : ∀ e, E e → F e) : Delivers P' F x := by
  cases x with
  | ok a => exact hp a rfl h
  | error e => exact he e h

end Delivers

/-- All faults of a step have a property. -/
abbrev Fails (E : ε → Prop) (x : Except ε α) : Prop :=
  Delivers (fun _ => True) E x

theorem Fails.bind {E : ε → Prop} (hx : Fails E x) (hf : ∀ a, x = .ok a → Fails E (f a)) :
    Fails E (x >>= f) :=
  Delivers.bind hx fun a ha _ => hf a ha

theorem Fails.mono {E F : ε → Prop} (h : Fails E x) (he : ∀ e, E e → F e) : Fails F x :=
  Delivers.mono h (fun _ _ h => h) he

end Conform
