import Conform.Proofs.Markup.Dialect

/-!
# The pattern of times

A day is three numbers with hyphens between them; a time of day behind it is three numbers with
colons, and perhaps a fraction and an offset. The scanner takes one part after the other. Every part
ends where the next one starts, so it never takes too much, and finds what the pattern matches.
-/

namespace Conform.Markup.Dialect

open Pattern

/-! ## 1. Numbers with marks between them -/

/-- Digits, of which there are some at least and at most. -/
def Digits (least most : Nat) (ds : List Char) : Prop :=
  (∀ d ∈ ds, isDigit d = true) ∧ least ≤ ds.length ∧ ds.length ≤ most

/-- A sequence that never starts with a digit. -/
def Undigited (rs : List Expression) : Prop :=
  ∀ u, Matches (seq rs) u → ∀ c ∈ u.head?, isDigit c = false

theorem undigited_char {c : Char} (hc : isDigit c = false) (rs : List Expression) :
    Undigited (.char c :: rs) := by
  intro u hu d hd
  obtain ⟨rest, rfl, -⟩ := matches_char_cons.mp hu
  obtain rfl : c = d := Option.some.inj hd
  exact hc

theorem number?_iff {least most n : Nat} {w rest : List Char} :
    number? least most w = some (n, rest) ↔ ∃ ds, w = ds ++ rest ∧ Digits least most ds ∧
      n = digitsValue ds ∧ ∀ c ∈ rest.head?, isDigit c = false := by
  constructor
  · intro h
    rw [number?] at h
    split at h
    · rename_i hlength
      cases h
      refine ⟨w.takeWhile isDigit, List.takeWhile_append_dropWhile.symm,
        ⟨fun _ => List.mem_takeWhile_imp, ?_⟩, rfl, fun c hc => ?_⟩
      · simpa using hlength
      · have hnot := List.head?_dropWhile_not isDigit w
        rw [hc] at hnot
        simpa using hnot
    · cases h
  · rintro ⟨ds, rfl, ⟨hds, hleast, hmost⟩, rfl, hrest⟩
    exact number?_digits hds hrest hleast hmost

section Blocks

variable {least most : Nat} {block : List Expression}

theorem matches_digits_append
    (hblock : ∀ ds, Matches (seq block) ds ↔ Digits least most ds) {rs : List Expression}
    {w : List Char} : Matches (seq (block ++ rs)) w ↔
      ∃ ds rest, w = ds ++ rest ∧ Digits least most ds ∧ Matches (seq rs) rest := by
  rw [← matches_seq_seq, matches_seq_cons]
  constructor
  · rintro ⟨ds, hds, rest, hrest, rfl⟩
    exact ⟨ds, rest, rfl, (hblock ds).mp hds, hrest⟩
  · rintro ⟨ds, rest, rfl, hds, hrest⟩
    exact ⟨ds, (hblock ds).mpr hds, rest, hrest, rfl⟩

/-- A number in front of what starts with no digit is scanned. -/
theorem matches_number (hblock : ∀ ds, Matches (seq block) ds ↔ Digits least most ds)
    {rs : List Expression} (hrs : Undigited rs) {w : List Char} :
    Matches (seq (block ++ rs)) w ↔
      ∃ n rest, number? least most w = some (n, rest) ∧ Matches (seq rs) rest := by
  rw [matches_digits_append hblock]
  constructor
  · rintro ⟨ds, rest, hw, hds, hrest⟩
    exact ⟨_, rest, number?_iff.mpr ⟨ds, hw, hds, rfl, hrs rest hrest⟩, hrest⟩
  · rintro ⟨n, rest, hscan, hrest⟩
    obtain ⟨ds, hw, hds, -, -⟩ := number?_iff.mp hscan
    exact ⟨ds, rest, hw, hds, hrest⟩

end Blocks

theorem matches_two_digits {ds : List Char} : Matches (seq [digit, digit]) ds ↔ Digits 2 2 ds := by
  simp only [digit, matches_oneOf_cons, matches_seq_nil, mem_digit_iff]
  constructor
  · rintro ⟨a, _, rfl, ha, b, _, rfl, hb, rfl⟩
    exact ⟨by simp [ha, hb], by simp, by simp⟩
  · rintro ⟨hds, hleast, hmost⟩
    obtain ⟨a, b, rfl⟩ := List.length_eq_two.mp (Nat.le_antisymm hmost hleast)
    exact ⟨a, _, rfl, hds a (by simp), b, _, rfl, hds b (by simp), rfl⟩

theorem matches_one_or_two_digits {ds : List Char} :
    Matches (seq [digit, maybe digit]) ds ↔ Digits 1 2 ds := by
  simp only [digit, matches_oneOf_cons, matches_maybe_cons, matches_seq_nil, mem_digit_iff]
  constructor
  · rintro ⟨a, _, rfl, ha, rfl | ⟨b, _, rfl, hb, rfl⟩⟩
    · exact ⟨by simp [ha], by simp, by simp⟩
    · exact ⟨by simp [ha, hb], by simp, by simp⟩
  · rintro ⟨hds, hleast, hmost⟩
    have hlength : ds.length = 1 ∨ ds.length = 2 := by omega
    rcases hlength with hone | htwo
    · obtain ⟨a, rfl⟩ := List.length_eq_one_iff.mp hone
      exact ⟨a, _, rfl, hds a (by simp), .inl rfl⟩
    · obtain ⟨a, b, rfl⟩ := List.length_eq_two.mp htwo
      exact ⟨a, _, rfl, hds a (by simp), .inr ⟨b, _, rfl, hds b (by simp), rfl⟩⟩

theorem matches_four_digits {ds : List Char} :
    Matches (seq [digit, digit, digit, digit]) ds ↔ Digits 4 4 ds := by
  have hpair : Matches (seq [seq [digit, digit], digit, digit]) ds ↔
      Matches (seq [digit, digit, digit, digit]) ds := matches_seq_seq
  rw [← hpair, matches_seq_cons]
  constructor
  · rintro ⟨a, ha, b, hb, rfl⟩
    obtain ⟨ha, ha₁, ha₂⟩ := matches_two_digits.mp ha
    obtain ⟨hb, hb₁, hb₂⟩ := matches_two_digits.mp hb
    refine ⟨fun d hd => (List.mem_append.mp hd).elim (ha d) (hb d), ?_, ?_⟩
    · rw [List.length_append]
      omega
    · rw [List.length_append]
      omega
  · rintro ⟨hds, hleast, hmost⟩
    refine ⟨ds.take 2, matches_two_digits.mpr ⟨fun d hd => hds d (List.mem_of_mem_take hd), ?_, ?_⟩,
      ds.drop 2, matches_two_digits.mpr ⟨fun d hd => hds d (List.mem_of_mem_drop hd), ?_, ?_⟩,
      List.take_append_drop 2 ds⟩
    all_goals simp only [List.length_take, List.length_drop]; omega

theorem matches_two_digits_cons {rs : List Expression} (hrs : Undigited rs) {w : List Char} :
    Matches (seq (digit :: digit :: rs)) w ↔
      ∃ n rest, number? 2 2 w = some (n, rest) ∧ Matches (seq rs) rest :=
  matches_number (fun _ => matches_two_digits) hrs

theorem matches_one_or_two_digits_cons {rs : List Expression} (hrs : Undigited rs)
    {w : List Char} : Matches (seq (digit :: maybe digit :: rs)) w ↔
      ∃ n rest, number? 1 2 w = some (n, rest) ∧ Matches (seq rs) rest :=
  matches_number (fun _ => matches_one_or_two_digits) hrs

theorem matches_mark {c : Char} {rs : List Expression} {w : List Char} :
    Matches (seq (.char c :: rs)) w ↔
      ∃ rest, char? (· = c) w = some rest ∧ Matches (seq rs) rest := by
  rw [matches_char_cons]
  constructor
  · rintro ⟨rest, rfl, hrest⟩
    exact ⟨rest, by simp [char?], hrest⟩
  · rintro ⟨rest, hchar, hrest⟩
    cases w with
    | nil => cases hchar
    | cons d w =>
      simp only [char?, decide_eq_true_eq, Option.ite_none_right_eq_some, Option.some.injEq] at hchar
      obtain ⟨rfl, rfl⟩ := hchar
      exact ⟨w, rfl, hrest⟩

/-! ## 2. Offsets -/

/-- Spaces and tabs. -/
def isBlankGap (c : Char) : Bool :=
  c = ' ' || c = '\t'

theorem offset?_isSome_iff {w : List Char} : (offset? w).isSome = true ↔
    w = [] ∨ w.dropWhile isBlankGap = ['Z'] ∨
      ∃ s rest, w.dropWhile isBlankGap = s :: rest ∧ s ∈ "-+".toList ∧
        ∃ hours more, number? 1 2 rest = some (hours, more) ∧
          (more = [] ∨ ∃ ms, more = ':' :: ms ∧ ∃ minutes, number? 2 2 ms = some (minutes, [])) := by
  constructor
  · intro h
    unfold offset? at h
    split at h
    · exact .inl (by simpa using h)
    · rename_i hdrop
      exact .inr (.inl hdrop)
    · rename_i s rest _ hdrop
      refine .inr (.inr ⟨s, rest, hdrop, ?_⟩)
      split at h
      · rename_i hs
        refine ⟨by simpa using hs, ?_⟩
        obtain ⟨o, h⟩ := Option.isSome_iff_exists.mp h
        obtain ⟨⟨hours, more⟩, hhours, h⟩ := Option.bind_eq_some_iff.mp h
        refine ⟨hours, more, hhours, ?_⟩
        cases more with
        | nil => exact .inl rfl
        | cons c ms =>
          dsimp only at h
          split at h
          · rename_i heq
            cases heq
          · rename_i ms' heq
            cases heq
            obtain ⟨⟨minutes, rest⟩, hminutes, h⟩ := Option.bind_eq_some_iff.mp h
            dsimp only at h
            split at h
            · rename_i hempty
              obtain rfl := List.isEmpty_iff.mp hempty
              exact .inr ⟨ms, rfl, minutes, hminutes⟩
            · cases h
          · cases h
      · cases h
  · rintro (rfl | hdrop | ⟨s, rest, hdrop, hs, hours, more, hhours, hmore⟩)
    · rfl
    · unfold offset?
      rw [show (w.dropWhile fun c => c = ' ' || c = '\t') = ['Z'] from hdrop]
      rfl
    · unfold offset?
      rw [show (w.dropWhile fun c => c = ' ' || c = '\t') = s :: rest from hdrop]
      have hs' : s = '-' ∨ s = '+' := by simpa using hs
      rcases hs' with rfl | rfl <;> rcases hmore with rfl | ⟨ms, rfl, minutes, hminutes⟩
      · simp [hhours]
      · simp [hhours, hminutes]
      · simp [hhours]
      · simp [hhours, hminutes]

theorem matches_minutes {w : List Char} : Matches (seq [digit, digit]) w ↔
    ∃ minutes, number? 2 2 w = some (minutes, []) := by
  rw [matches_two_digits]
  constructor
  · exact fun h => ⟨_, number?_iff.mpr ⟨w, (List.append_nil w).symm, h, rfl, by simp⟩⟩
  · rintro ⟨minutes, h⟩
    obtain ⟨ds, rfl, hds, -, -⟩ := number?_iff.mp h
    rwa [List.append_nil]

/-- A sign, hours, and perhaps minutes. -/
theorem matches_signed_offset {w : List Char} :
    Matches (seq [oneOf "-+", digit, maybe digit, maybe (seq [.char ':', digit, digit])]) w ↔
      ∃ s rest, w = s :: rest ∧ s ∈ "-+".toList ∧
        ∃ hours more, number? 1 2 rest = some (hours, more) ∧
          (more = [] ∨ ∃ ms, more = ':' :: ms ∧ ∃ minutes, number? 2 2 ms = some (minutes, [])) := by
  have htail : ∀ u, Matches (seq [maybe (seq [.char ':', digit, digit])]) u ↔
      u = [] ∨ ∃ ms, u = ':' :: ms ∧ ∃ minutes, number? 2 2 ms = some (minutes, []) := fun u => by
    rw [matches_seq_singleton, matches_maybe, matches_char_cons]
    simp only [matches_minutes]
  have hundigited : Undigited [maybe (seq [.char ':', digit, digit])] := by
    intro u hu c hc
    rcases (htail u).mp hu with rfl | ⟨ms, rfl, -⟩
    · cases hc
    · cases hc
      rfl
  rw [matches_oneOf_cons]
  simp only [matches_one_or_two_digits_cons hundigited, htail]

/-- **The scanner finds the offsets.** -/
theorem matches_offset {w : List Char} : Matches offset w ↔ (offset? w).isSome = true := by
  have hblank : ∀ c, isBlankGap c = true ↔ c ∈ " \t".toList := fun c => by simp [isBlankGap]
  have hbehind : ∀ u, Matches (seq [choice [.char 'Z', seq [oneOf "-+", digit, maybe digit,
      maybe (seq [.char ':', digit, digit])]]]) u ↔ u = ['Z'] ∨
        ∃ s rest, u = s :: rest ∧ s ∈ "-+".toList ∧
          ∃ hours more, number? 1 2 rest = some (hours, more) ∧ (more = [] ∨
            ∃ ms, more = ':' :: ms ∧ ∃ minutes, number? 2 2 ms = some (minutes, [])) := fun u => by
    rw [matches_seq_singleton, matches_choice]
    simp only [List.exists_mem_cons_iff, List.not_mem_nil, false_and, exists_false, or_false,
      matches_char, matches_signed_offset]
  rw [offset?_isSome_iff, offset, matches_maybe, matches_class_cons hblank fun u hu c hc => ?_,
    hbehind]
  rcases (hbehind u).mp hu with rfl | ⟨s, rest, rfl, hs, -⟩
  · cases hc
    rfl
  · obtain rfl : s = c := Option.some.inj hc
    have hsigns : ∀ s ∈ "-+".toList, isBlankGap s = false := forall_mem_of_all (by decide)
    exact hsigns s hs

/-! ## 3. Times of day -/

/-- The text behind what stands between a date and a time. -/
def afterGap? : List Char → Option (List Char)
  | 'T' :: rest => some rest
  | 't' :: rest => some rest
  | c :: rest => if isBlankGap c then some (rest.dropWhile isBlankGap) else none
  | [] => none

/-- The text behind a fraction, which may be absent. -/
def afterFraction : List Char → List Char
  | '.' :: more => more.dropWhile isDigit
  | more => more

/-- The scanner behind the gap. -/
def clockFrom? (date : TimeParts) (cs : List Char) : Option TimeParts := do
  let (hour, rest) ← number? 1 2 cs
  let rest ← char? (· = ':') rest
  let (minute, rest) ← number? 2 2 rest
  let rest ← char? (· = ':') rest
  let (second, rest) ← number? 2 2 rest
  let (fraction, rest) :=
    match rest with
    | '.' :: more => (more.takeWhile isDigit, more.dropWhile isDigit)
    | more => ([], more)
  let offset ← offset? rest
  some { date with clock := some (hour, minute, second), fraction, offset }

theorem clock?_eq (date : TimeParts) (w : List Char) :
    clock? date w = (afterGap? w).bind (clockFrom? date) := by
  unfold clock?
  split
  · rfl
  · rfl
  · rename_i c rest hupper hlower
    rw [afterGap?]
    · by_cases hc : isBlankGap c = true
      · have hc' : (decide (c = ' ') || decide (c = '\t')) = true := hc
        simp only [hc, hc', if_true]
        rfl
      · have hc' : ¬ (decide (c = ' ') || decide (c = '\t')) = true := hc
        simp only [hc, hc']
        rfl
    · exact hupper
    · exact hlower
  · rfl

theorem clockFrom?_isSome_iff (date : TimeParts) {w : List Char} :
    (clockFrom? date w).isSome = true ↔
      ∃ hour r₂, number? 1 2 w = some (hour, r₂) ∧ ∃ r₃, char? (· = ':') r₂ = some r₃ ∧
      ∃ minute r₄, number? 2 2 r₃ = some (minute, r₄) ∧ ∃ r₅, char? (· = ':') r₄ = some r₅ ∧
      ∃ second r₆, number? 2 2 r₅ = some (second, r₆) ∧
        (offset? (afterFraction r₆)).isSome = true := by
  have hfraction : ∀ rest : List Char, (match rest with
      | '.' :: more => (more.takeWhile isDigit, more.dropWhile isDigit)
      | more => ([], more)).2 = afterFraction rest := fun rest => by
    unfold afterFraction
    split <;> rfl
  unfold clockFrom?
  simp only [Option.bind_eq_bind, Option.bind_eq_some_iff, Prod.exists, hfraction,
    Option.isSome_iff_exists]
  constructor
  · rintro ⟨t, hour, r₂, h₁, r₃, h₂, minute, r₄, h₃, r₅, h₄, second, r₆, h₅, o, h₆, -⟩
    exact ⟨hour, r₂, h₁, r₃, h₂, minute, r₄, h₃, r₅, h₄, second, r₆, h₅, o, h₆⟩
  · rintro ⟨hour, r₂, h₁, r₃, h₂, minute, r₄, h₃, r₅, h₄, second, r₆, h₅, o, h₆⟩
    exact ⟨_, hour, r₂, h₁, r₃, h₂, minute, r₄, h₃, r₅, h₄, second, r₆, h₅, o, h₆, rfl⟩

/-- What has been scanned has a time of day. -/
theorem isSome_of_clock? {date t : TimeParts} {w : List Char} (h : clock? date w = some t) :
    t.clock.isSome = true := by
  rw [clock?_eq] at h
  obtain ⟨rest, -, h⟩ := Option.bind_eq_some_iff.mp h
  unfold clockFrom? at h
  simp only [Option.bind_eq_bind, Option.bind_eq_some_iff, Prod.exists] at h
  obtain ⟨_, _, _, _, _, _, _, _, _, _, _, _, _, _, _, heq⟩ := h
  cases heq
  rfl

/-- An offset starts with spacing, with a `Z` or with a sign. -/
theorem head?_of_offset {w : List Char} (h : Matches offset w) :
    ∀ c ∈ w.head?, c ∈ " \tZ-+".toList := by
  intro c hc
  obtain ⟨rest, rfl⟩ := List.head?_eq_some_iff.mp hc
  by_cases hblank : isBlankGap c = true
  · simp only [isBlankGap, Bool.or_eq_true, decide_eq_true_eq] at hblank
    rcases hblank with rfl | rfl <;> decide
  · have hself : (c :: rest).dropWhile isBlankGap = c :: rest := by
      rw [List.dropWhile_cons, if_neg hblank]
    rw [matches_offset, offset?_isSome_iff, hself] at h
    rcases h with h | h | ⟨s, rest', h, hs, -⟩
    · cases h
    · cases h
      decide
    · obtain rfl : c = s := (List.cons.inj h).1
      have hsigns : ∀ s ∈ "-+".toList, s ∈ " \tZ-+".toList := forall_mem_of_all (by decide)
      exact hsigns c hs

theorem matches_fraction_offset {w : List Char} :
    Matches (seq [maybe (seq [.char '.', any digit]), offset]) w ↔
      (offset? (afterFraction w)).isSome = true := by
  have hundigited : ∀ u, Matches (seq [offset]) u → ∀ c ∈ u.head?, isDigit c = false := by
    intro u hu c hc
    have hclass : ∀ c ∈ " \tZ-+".toList, isDigit c = false := forall_mem_of_all (by decide)
    exact hclass c (head?_of_offset (matches_seq_singleton.mp hu) c hc)
  have hdigits : ∀ u, Matches (seq [any digit, offset]) u ↔
      Matches offset (u.dropWhile isDigit) := fun u => by
    rw [digit, matches_class_cons (fun c => mem_digit_iff.symm) hundigited, matches_seq_singleton]
  rw [matches_maybe_cons, matches_seq_seq, matches_seq_singleton]
  simp only [List.cons_append, List.nil_append, matches_char_cons, hdigits]
  unfold afterFraction
  split
  · rename_i more
    rw [← matches_offset]
    constructor
    · rintro (h | ⟨rest, heq, h⟩)
      · exact absurd (head?_of_offset h '.' rfl) (by decide)
      · cases heq
        exact h
    · exact fun h => .inr ⟨more, rfl, h⟩
  · rename_i hpoint
    rw [← matches_offset]
    constructor
    · rintro (h | ⟨rest, heq, -⟩)
      · exact h
      · exact absurd heq (hpoint rest)
    · exact .inl

theorem undigited_fraction : Undigited [maybe (seq [.char '.', any digit]), offset] := by
  intro u hu c hc
  rw [matches_maybe_cons, matches_seq_seq, matches_seq_singleton] at hu
  rcases hu with hu | hu
  · have hclass : ∀ c ∈ " \tZ-+".toList, isDigit c = false := forall_mem_of_all (by decide)
    exact hclass c (head?_of_offset hu c hc)
  · exact undigited_char (by decide) _ u hu c hc

/-- What stands between a date and a digit. -/
theorem matches_gap_cons {rs : List Expression} {w : List Char} :
    Matches (seq (choice [oneOf "Tt", many (oneOf " \t")] :: digit :: rs)) w ↔
      ∃ rest, afterGap? w = some rest ∧ Matches (seq (digit :: rs)) rest := by
  have hblank : ∀ c, isBlankGap c = true ↔ c ∈ " \t".toList := fun c => by simp [isBlankGap]
  have hdigit : ∀ u, Matches (seq (digit :: rs)) u → ∀ c ∈ u.head?, isBlankGap c = false := by
    intro u hu c hc
    obtain ⟨d, rest, rfl, hd, -⟩ := matches_oneOf_cons.mp hu
    obtain rfl : d = c := Option.some.inj hc
    have hclass : ∀ c ∈ "0123456789".toList, isBlankGap c = false := forall_mem_of_all (by decide)
    exact hclass d hd
  have hgap : ∀ a, Matches (choice [oneOf "Tt", many (oneOf " \t")]) a ↔
      a = ['T'] ∨ a = ['t'] ∨ a ≠ [] ∧ ∀ c ∈ a, isBlankGap c = true := fun a => by
    simp [matches_choice, matches_oneOf, matches_many_oneOf, isBlankGap, or_assoc]
  rw [matches_seq_cons]
  constructor
  · rintro ⟨a, ha, rest, hrest, rfl⟩
    rcases (hgap a).mp ha with rfl | rfl | ⟨hne, hall⟩
    · exact ⟨rest, rfl, hrest⟩
    · exact ⟨rest, rfl, hrest⟩
    · obtain ⟨b, bs, rfl⟩ := List.exists_cons_of_ne_nil hne
      obtain ⟨hb, hbs⟩ := List.forall_mem_cons.mp hall
      refine ⟨rest, ?_, hrest⟩
      rw [List.cons_append, afterGap?, if_pos hb, dropWhile_append hbs (hdigit rest hrest)]
      · rintro rfl
        cases hb
      · rintro rfl
        cases hb
  · rintro ⟨rest, hafter, hrest⟩
    unfold afterGap? at hafter
    split at hafter
    · cases hafter
      exact ⟨['T'], (hgap _).mpr (.inl rfl), rest, hrest, rfl⟩
    · cases hafter
      exact ⟨['t'], (hgap _).mpr (.inr (.inl rfl)), rest, hrest, rfl⟩
    · rename_i c more _ _
      split at hafter
      · rename_i hc
        cases hafter
        obtain ⟨bs, hmore, hbs⟩ := exists_dropWhile isBlankGap more
        refine ⟨c :: bs, (hgap _).mpr (.inr (.inr ⟨List.cons_ne_nil c bs,
          List.forall_mem_cons.mpr ⟨hc, hbs⟩⟩)), _, hrest, ?_⟩
        rw [List.cons_append, ← hmore]
      · cases hafter
    · cases hafter

/-- **The scanner finds the times of day.** -/
theorem matches_clock (date : TimeParts) {w : List Char} :
    Matches (seq clock) w ↔ (clock? date w).isSome = true := by
  have hcolon : ∀ rs, Undigited (.char ':' :: rs) := undigited_char (by decide)
  rw [clock, matches_gap_cons]
  simp only [matches_one_or_two_digits_cons (hcolon _), matches_mark,
    matches_two_digits_cons (hcolon _), matches_two_digits_cons undigited_fraction,
    matches_fraction_offset]
  rw [clock?_eq]
  simp only [← clockFrom?_isSome_iff date]
  simp only [Option.isSome_iff_exists, Option.bind_eq_some_iff]
  exact ⟨fun ⟨r, hr, t, ht⟩ => ⟨t, r, hr, ht⟩, fun ⟨t, r, hr, ht⟩ => ⟨r, hr, t, ht⟩⟩

theorem head?_of_clock {w : List Char} (h : Matches (seq clock) w) :
    w ≠ [] ∧ ∀ c ∈ w.head?, isDigit c = false := by
  rw [clock, matches_gap_cons] at h
  obtain ⟨rest, hafter, -⟩ := h
  unfold afterGap? at hafter
  split at hafter
  · exact ⟨List.cons_ne_nil _ _, by rintro c ⟨⟩; rfl⟩
  · exact ⟨List.cons_ne_nil _ _, by rintro c ⟨⟩; rfl⟩
  · rename_i c more _ _
    refine ⟨List.cons_ne_nil _ _, ?_⟩
    rintro d ⟨⟩
    split at hafter
    · rename_i hc
      simp only [isBlankGap, Bool.or_eq_true, decide_eq_true_eq] at hc
      rcases hc with rfl | rfl <;> rfl
    · cases hafter
  · cases hafter

/-! ## 4. Days and times -/

/-- A date in front of something else. -/
structure DateFront (w year month day rest : List Char) : Prop where
  eq : w = year ++ '-' :: (month ++ '-' :: (day ++ rest))
  year : Digits 4 4 year
  month : Digits 1 2 month
  day : Digits 1 2 day
  rest : ∀ c ∈ rest.head?, isDigit c = false

theorem timeParts?_iff {w : List Char} {t : TimeParts} : timeParts? w = some t ↔
    ∃ y m d rest, DateFront w y m d rest ∧
      (if rest.isEmpty then some ⟨digitsValue y, digitsValue m, digitsValue d, none, [], none⟩
        else clock? ⟨digitsValue y, digitsValue m, digitsValue d, none, [], none⟩ rest) =
          some t := by
  have hhyphen : ∀ rest : List Char, ∀ c ∈ ('-' :: rest).head?, isDigit c = false := by
    rintro rest c ⟨⟩
    rfl
  have hmark : ∀ {u rest : List Char}, char? (· = '-') u = some rest → u = '-' :: rest := by
    intro u rest h
    cases u with
    | nil => cases h
    | cons c u =>
      simp only [char?, decide_eq_true_eq, Option.ite_none_right_eq_some, Option.some.injEq] at h
      rw [h.1, h.2]
  constructor
  · intro h
    unfold timeParts? at h
    obtain ⟨⟨year, r₁⟩, h₁, h⟩ := Option.bind_eq_some_iff.mp h
    obtain ⟨r₂, h₂, h⟩ := Option.bind_eq_some_iff.mp h
    obtain ⟨⟨month, r₃⟩, h₃, h⟩ := Option.bind_eq_some_iff.mp h
    obtain ⟨r₄, h₄, h⟩ := Option.bind_eq_some_iff.mp h
    obtain ⟨⟨day, rest⟩, h₅, h⟩ := Option.bind_eq_some_iff.mp h
    obtain ⟨y, rfl, hy, rfl, -⟩ := number?_iff.mp h₁
    obtain rfl := hmark h₂
    obtain ⟨m, rfl, hm, rfl, -⟩ := number?_iff.mp h₃
    obtain rfl := hmark h₄
    obtain ⟨d, rfl, hd, rfl, hrest⟩ := number?_iff.mp h₅
    exact ⟨y, m, d, rest, ⟨rfl, hy, hm, hd, hrest⟩, h⟩
  · rintro ⟨y, m, d, rest, ⟨rfl, hy, hm, hd, hrest⟩, h⟩
    have h₁ := number?_iff.mpr ⟨y, rfl, hy, rfl, hhyphen (m ++ '-' :: (d ++ rest))⟩
    have h₃ := number?_iff.mpr ⟨m, rfl, hm, rfl, hhyphen (d ++ rest)⟩
    have h₅ := number?_iff.mpr ⟨d, rfl, hd, rfl, hrest⟩
    simp only [timeParts?, h₁, h₃, h₅, char?, decide_true, if_true, Option.bind_eq_bind,
      Option.bind_some]
    exact h

/-- What the scanner takes as a time is a date, alone or in front of a time of day. -/
theorem isTimestamp_iff {w : List Char} : isTimestamp w = true ↔
    ∃ y m d rest, DateFront w y m d rest ∧
      (rest = [] ∧ w.length = 10 ∨ Matches (seq clock) rest) := by
  constructor
  · intro h
    unfold isTimestamp at h
    split at h
    · rename_i t ht
      obtain ⟨y, m, d, rest, hfront, hclock⟩ := timeParts?_iff.mp ht
      refine ⟨y, m, d, rest, hfront, ?_⟩
      split at hclock
      · rename_i hempty
        cases hclock
        exact .inl ⟨List.isEmpty_iff.mp hempty, by simpa using h⟩
      · exact .inr ((matches_clock _).mpr (Option.isSome_iff_exists.mpr ⟨t, hclock⟩))
    · cases h
  · rintro ⟨y, m, d, rest, hfront, ⟨rfl, hlength⟩ | hclock⟩
    · have ht := timeParts?_iff.mpr ⟨y, m, d, [], hfront, rfl⟩
      simp [isTimestamp, ht, hlength]
    · obtain ⟨hne, -⟩ := head?_of_clock hclock
      obtain ⟨t, ht⟩ := Option.isSome_iff_exists.mp ((matches_clock
        ⟨digitsValue y, digitsValue m, digitsValue d, none, [], none⟩).mp hclock)
      have hparts := timeParts?_iff.mpr
        ⟨y, m, d, rest, hfront, by rw [if_neg (by simpa using hne)]; exact ht⟩
      simp [isTimestamp, hparts, isSome_of_clock? ht]

/-- **The scanner finds the times.** -/
theorem matches_timestampPattern {w : List Char} :
    Matches timestampPattern w ↔ isTimestamp w = true := by
  have hfour : ∀ {rs : List Expression} {u : List Char},
      Matches (seq (digit :: digit :: digit :: digit :: rs)) u ↔
        ∃ ds rest, u = ds ++ rest ∧ Digits 4 4 ds ∧ Matches (seq rs) rest :=
    matches_digits_append fun _ => matches_four_digits
  have htwo : ∀ {rs : List Expression} {u : List Char}, Matches (seq (digit :: digit :: rs)) u ↔
      ∃ ds rest, u = ds ++ rest ∧ Digits 2 2 ds ∧ Matches (seq rs) rest :=
    matches_digits_append fun _ => matches_two_digits
  have honeOrTwo : ∀ {rs : List Expression} {u : List Char},
      Matches (seq (digit :: maybe digit :: rs)) u ↔
        ∃ ds rest, u = ds ++ rest ∧ Digits 1 2 ds ∧ Matches (seq rs) rest :=
    matches_digits_append fun _ => matches_one_or_two_digits
  rw [isTimestamp_iff, timestampPattern, matches_choice]
  simp only [List.exists_mem_cons_iff, List.not_mem_nil, false_and, exists_false, or_false,
    List.cons_append, List.nil_append, hfour, htwo, honeOrTwo, matches_char_cons, matches_seq_nil]
  constructor
  · rintro (⟨y, _, rfl, hy, _, rfl, m, _, rfl, hm, _, rfl, d, _, rfl, hd, rfl⟩ |
      ⟨y, _, rfl, hy, _, rfl, m, _, rfl, hm, _, rfl, d, rest, rfl, hd, hclock⟩)
    · have hmonth := hm.2
      have hday := hd.2
      have hyear := hy.2
      refine ⟨y, m, d, [], ⟨rfl, hy, ⟨hm.1, by omega, by omega⟩, ⟨hd.1, by omega, by omega⟩,
        by simp⟩, .inl ⟨rfl, ?_⟩⟩
      simp only [List.length_append, List.length_cons, List.length_nil]
      omega
    · exact ⟨y, m, d, rest, ⟨rfl, hy, hm, hd, (head?_of_clock hclock).2⟩, .inr hclock⟩
  · rintro ⟨y, m, d, rest, ⟨rfl, hy, hm, hd, -⟩, ⟨rfl, hlength⟩ | hclock⟩
    · have hmonth := hm.2
      have hday := hd.2
      have hyear := hy.2
      simp only [List.length_append, List.length_cons, List.length_nil] at hlength
      exact .inl ⟨y, _, rfl, hy, _, rfl, m, _, rfl, ⟨hm.1, by omega, by omega⟩, _, rfl, d, _, rfl,
        ⟨hd.1, by omega, by omega⟩, rfl⟩
    · exact .inr ⟨y, _, rfl, hy, _, rfl, m, _, rfl, hm, _, rfl, d, rest, rfl, hd, hclock⟩

end Conform.Markup.Dialect
