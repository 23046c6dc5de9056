import Mathlib.Computability.RegularExpressions

/-!
# Texts that match an expression

The patterns of the dialect are regular expressions. This file fixes how they are put together,
from characters by sequences, choices and repetitions, and says what it means for a text to match
such an expression as a whole.
-/

namespace Conform.Markup.Dialect

/-! ## 1. Expressions -/

/-- A regular expression over characters. -/
abbrev Expression := RegularExpression Char

/-- One expression after the other. -/
def seq : List Expression → Expression
  | [] => 1
  | r :: rs => r * seq rs

/-- One of some expressions. -/
def choice : List Expression → Expression
  | [] => 0
  | r :: rs => r + choice rs

/-- One of some characters. -/
def oneOf (cs : String) : Expression :=
  choice (cs.toList.map .char)

/-- A word, letter by letter. -/
def word (cs : String) : Expression :=
  seq (cs.toList.map .char)

/-- One of some words. -/
def words (ws : List String) : Expression :=
  choice (ws.map word)

/-- An expression, or nothing. -/
def maybe (r : Expression) : Expression :=
  1 + r

/-- An expression, any number of times. -/
def any (r : Expression) : Expression :=
  r.star

/-- An expression, once at least. -/
def many (r : Expression) : Expression :=
  r * r.star

/-- A text matches an expression as a whole. -/
def Matches (r : Expression) (w : List Char) : Prop :=
  w ∈ r.matches'

instance (r : Expression) (w : List Char) : Decidable (Matches r w) :=
  decidable_of_iff _ (RegularExpression.rmatch_iff_matches' r w)

/-! ## 2. Sequences and choices -/

section Matching

variable {r : Expression} {rs : List Expression} {w : List Char}

theorem matches_seq_nil : Matches (seq []) w ↔ w = [] :=
  Iff.rfl

theorem matches_seq_cons :
    Matches (seq (r :: rs)) w ↔ ∃ a, Matches r a ∧ ∃ b, Matches (seq rs) b ∧ a ++ b = w :=
  Language.mem_mul

theorem matches_choice : Matches (choice rs) w ↔ ∃ r ∈ rs, Matches r w := by
  induction rs with
  | nil => exact ⟨fun h => absurd h (Language.notMem_zero w), fun ⟨_, h, _⟩ => absurd h (by simp)⟩
  | cons r rs ih =>
    rw [List.exists_mem_cons_iff, ← ih]
    rfl

theorem matches_char {c : Char} : Matches (.char c) w ↔ w = [c] :=
  Iff.rfl

theorem matches_oneOf {cs : String} : Matches (oneOf cs) w ↔ ∃ c ∈ cs.toList, w = [c] := by
  rw [oneOf, matches_choice]
  constructor
  · rintro ⟨r, hr, hw⟩
    obtain ⟨c, hc, rfl⟩ := List.mem_map.mp hr
    exact ⟨c, hc, hw⟩
  · rintro ⟨c, hc, hw⟩
    exact ⟨.char c, List.mem_map_of_mem hc, hw⟩

theorem matches_word {cs : String} : Matches (word cs) w ↔ w = cs.toList := by
  rw [word]
  induction cs.toList generalizing w with
  | nil => exact matches_seq_nil
  | cons c cs ih =>
    rw [List.map_cons, matches_seq_cons]
    constructor
    · rintro ⟨_, rfl, b, hb, rfl⟩
      rw [ih.mp hb]
      rfl
    · rintro rfl
      exact ⟨[c], rfl, cs, ih.mpr rfl, rfl⟩

theorem matches_words {ws : List String} : Matches (words ws) w ↔ w ∈ ws.map String.toList := by
  rw [words, matches_choice, List.mem_map]
  constructor
  · rintro ⟨r, hr, hw⟩
    obtain ⟨s, hs, rfl⟩ := List.mem_map.mp hr
    exact ⟨s, hs, (matches_word.mp hw).symm⟩
  · rintro ⟨s, hs, rfl⟩
    exact ⟨word s, List.mem_map_of_mem hs, matches_word.mpr rfl⟩

/-! ## 3. What a sequence starts with -/

theorem matches_seq_singleton : Matches (seq [r]) w ↔ Matches r w := by
  rw [matches_seq_cons]
  constructor
  · rintro ⟨a, ha, b, rfl, rfl⟩
    rw [List.append_nil]
    exact ha
  · exact fun h => ⟨w, h, [], rfl, List.append_nil w⟩

theorem matches_char_cons {c : Char} :
    Matches (seq (.char c :: rs)) w ↔ ∃ rest, w = c :: rest ∧ Matches (seq rs) rest := by
  rw [matches_seq_cons]
  constructor
  · rintro ⟨_, rfl, b, hb, rfl⟩
    exact ⟨b, rfl, hb⟩
  · rintro ⟨rest, rfl, hrest⟩
    exact ⟨[c], rfl, rest, hrest, rfl⟩

theorem matches_oneOf_cons {cs : String} : Matches (seq (oneOf cs :: rs)) w ↔
    ∃ c rest, w = c :: rest ∧ c ∈ cs.toList ∧ Matches (seq rs) rest := by
  rw [matches_seq_cons]
  constructor
  · rintro ⟨a, ha, b, hb, rfl⟩
    obtain ⟨c, hc, rfl⟩ := matches_oneOf.mp ha
    exact ⟨c, b, rfl, hc, hb⟩
  · rintro ⟨c, rest, rfl, hc, hrest⟩
    exact ⟨[c], matches_oneOf.mpr ⟨c, hc, rfl⟩, rest, hrest, rfl⟩

theorem matches_maybe : Matches (maybe r) w ↔ w = [] ∨ Matches r w :=
  Iff.rfl

theorem matches_maybe_cons :
    Matches (seq (maybe r :: rs)) w ↔ Matches (seq rs) w ∨ Matches (seq (r :: rs)) w := by
  rw [matches_seq_cons, matches_seq_cons]
  constructor
  · rintro ⟨a, rfl | ha, b, hb, rfl⟩
    · exact .inl hb
    · exact .inr ⟨a, ha, b, hb, rfl⟩
  · rintro (hw | ⟨a, ha, b, hb, rfl⟩)
    · exact ⟨[], .inl rfl, w, hw, rfl⟩
    · exact ⟨a, .inr ha, b, hb, rfl⟩

/-- A sequence in a sequence is a part of it. -/
theorem matches_seq_seq {qs : List Expression} :
    Matches (seq (seq qs :: rs)) w ↔ Matches (seq (qs ++ rs)) w := by
  induction qs generalizing w with
  | nil =>
    rw [matches_seq_cons]
    exact ⟨fun ⟨_, ha, _, hb, hw⟩ => by rwa [← hw, matches_seq_nil.mp ha],
      fun hw => ⟨[], rfl, w, hw, rfl⟩⟩
  | cons q qs ih =>
    rw [matches_seq_cons, List.cons_append, matches_seq_cons]
    constructor
    · rintro ⟨a, ha, b, hb, rfl⟩
      obtain ⟨a₁, ha₁, a₂, ha₂, rfl⟩ := matches_seq_cons.mp ha
      exact ⟨a₁, ha₁, a₂ ++ b, ih.mp (matches_seq_cons.mpr ⟨a₂, ha₂, b, hb, rfl⟩),
        (List.append_assoc ..).symm⟩
    · rintro ⟨a₁, ha₁, more, hmore, rfl⟩
      obtain ⟨a₂, ha₂, b, hb, rfl⟩ := matches_seq_cons.mp (ih.mpr hmore)
      exact ⟨a₁ ++ a₂, matches_seq_cons.mpr ⟨a₁, ha₁, a₂, ha₂, rfl⟩, b, hb,
        List.append_assoc ..⟩

/-! ## 4. Repetitions -/

theorem matches_any : Matches (any r) w ↔
    ∃ parts : List (List Char), w = parts.flatten ∧ ∀ p ∈ parts, Matches r p :=
  Language.mem_kstar

theorem matches_any_append {a b : List Char} (ha : Matches r a) (hb : Matches (any r) b) :
    Matches (any r) (a ++ b) := by
  obtain ⟨parts, rfl, hparts⟩ := matches_any.mp hb
  exact matches_any.mpr ⟨a :: parts, rfl, List.forall_mem_cons.mpr ⟨ha, hparts⟩⟩

theorem matches_many :
    Matches (many r) w ↔ ∃ a b, w = a ++ b ∧ Matches r a ∧ Matches (any r) b := by
  constructor
  · rintro ⟨a, ha, b, hb, rfl⟩
    exact ⟨a, b, rfl, ha, hb⟩
  · rintro ⟨a, b, rfl, ha, hb⟩
    exact ⟨a, ha, b, hb, rfl⟩

theorem matches_any_oneOf {cs : String} : Matches (any (oneOf cs)) w ↔ ∀ c ∈ w, c ∈ cs.toList := by
  rw [matches_any]
  constructor
  · rintro ⟨parts, rfl, hparts⟩ c hc
    obtain ⟨p, hp, hcp⟩ := List.mem_flatten.mp hc
    obtain ⟨d, hd, rfl⟩ := matches_oneOf.mp (hparts p hp)
    rwa [List.mem_singleton.mp hcp]
  · intro h
    refine ⟨w.map fun c => [c], ?_, fun p hp => ?_⟩
    · rw [← List.flatMap_def, List.flatMap_singleton']
    · obtain ⟨c, hc, rfl⟩ := List.mem_map.mp hp
      exact matches_oneOf.mpr ⟨c, h c hc, rfl⟩

theorem matches_many_oneOf {cs : String} :
    Matches (many (oneOf cs)) w ↔ w ≠ [] ∧ ∀ c ∈ w, c ∈ cs.toList := by
  rw [matches_many]
  constructor
  · rintro ⟨a, b, rfl, ha, hb⟩
    obtain ⟨c, hc, rfl⟩ := matches_oneOf.mp ha
    exact ⟨List.cons_ne_nil c b, List.forall_mem_cons.mpr ⟨hc, matches_any_oneOf.mp hb⟩⟩
  · rintro ⟨hne, h⟩
    obtain ⟨c, rest, rfl⟩ := List.exists_cons_of_ne_nil hne
    obtain ⟨hc, hrest⟩ := List.forall_mem_cons.mp h
    exact ⟨[c], rest, rfl, matches_oneOf.mpr ⟨c, hc, rfl⟩, matches_any_oneOf.mpr hrest⟩

theorem matches_any_oneOf_cons {cs : String} : Matches (seq (any (oneOf cs) :: rs)) w ↔
    ∃ ds rest, w = ds ++ rest ∧ (∀ d ∈ ds, d ∈ cs.toList) ∧ Matches (seq rs) rest := by
  rw [matches_seq_cons]
  constructor
  · rintro ⟨a, ha, b, hb, rfl⟩
    exact ⟨a, b, rfl, matches_any_oneOf.mp ha, hb⟩
  · rintro ⟨ds, rest, rfl, hds, hrest⟩
    exact ⟨ds, matches_any_oneOf.mpr hds, rest, hrest, rfl⟩

end Matching

end Conform.Markup.Dialect
