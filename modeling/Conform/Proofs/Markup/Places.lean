import Conform.Markup.Pen
import Conform.Markup.Tokens

/-!
# Places behind what has been read

Every reader of the library returns the cursor behind what it has taken. This file says where that
is: the place behind a list of characters, its index, its line and its column, and what the small
steps of a cursor do in front of known characters. The written documents are made of lines, so the
break with the indentation behind it, `newLine`, has lemmas of its own.
-/

namespace Conform.Markup

/-! ## 1. Breaks that are read as they stand -/

/-- A break that is one character and is read as it stands: a line feed or a separator. -/
def isOwnBreak (c : Char) : Bool :=
  c = '\n' || c = '\u2028' || c = '\u2029'

theorem isOwnBreak_iff {c : Char} :
    isOwnBreak c = true ↔ isBreak c = true ∧ c ≠ '\r' ∧ c ≠ '\x85' := by
  simp only [isOwnBreak, isBreak, Bool.or_eq_true, decide_eq_true_eq]
  constructor
  · rintro ((rfl | rfl) | rfl) <;> decide
  · rintro ⟨((((rfl | rfl) | rfl) | rfl) | rfl), hreturn, hnext⟩ <;> simp_all

theorem isBreak_of_isOwnBreak {c : Char} (h : isOwnBreak c = true) : isBreak c = true :=
  (isOwnBreak_iff.mp h).1

theorem readBreak_of_isOwnBreak {c : Char} (h : isOwnBreak c = true) : readBreak c = c := by
  obtain ⟨-, hreturn, hnext⟩ := isOwnBreak_iff.mp h
  simp [readBreak, hreturn, hnext]

theorem isHalfBreak_of_isOwnBreak {c : Char} (h : isOwnBreak c = true) (rest : List Char) :
    isHalfBreak c rest = false := by
  simp [isHalfBreak, (isOwnBreak_iff.mp h).2.1]

/-- The first half of a break is a return, and a line feed follows. -/
theorem isHalfBreak_iff {a : Char} {cs : List Char} :
    isHalfBreak a cs = true ↔ a = '\r' ∧ ∃ rest, cs = '\n' :: rest := by
  rw [isHalfBreak, Bool.and_eq_true, decide_eq_true_eq, decide_eq_true_eq, List.head?_eq_some_iff]

@[simp] theorem isHalfBreak_feed (rest : List Char) : isHalfBreak '\n' rest = false := rfl

@[simp] theorem readBreak_feed : readBreak '\n' = '\n' := rfl

/-! ## 2. The place behind some characters -/

namespace Place

/-- The place behind some characters. -/
def after (p : Place) (cs : List Char) : Place :=
  cs.foldl Place.next p

@[simp] theorem after_nil (p : Place) : p.after [] = p := rfl

@[simp] theorem after_cons (p : Place) (c : Char) (cs : List Char) :
    p.after (c :: cs) = (p.next c).after cs := rfl

theorem after_append (p : Place) (xs ys : List Char) :
    p.after (xs ++ ys) = (p.after xs).after ys :=
  List.foldl_append

@[simp] theorem index_next (p : Place) (c : Char) : (p.next c).index = p.index + 1 := by
  unfold next
  split
  · rfl
  · split <;> rfl

@[simp] theorem index_after : ∀ (cs : List Char) (p : Place),
    (p.after cs).index = p.index + cs.length
  | [], _ => rfl
  | c :: cs, p => by
      rw [after_cons, index_after cs, index_next, List.length_cons]
      omega

theorem line_le_next (p : Place) (c : Char) : p.line ≤ (p.next c).line := by
  unfold next
  split
  · exact Nat.le_succ _
  · split <;> exact Nat.le_refl _

theorem line_le_after : ∀ (cs : List Char) (p : Place), p.line ≤ (p.after cs).line
  | [], _ => Nat.le_refl _
  | c :: cs, p => Nat.le_trans (line_le_next p c) (line_le_after cs (p.next c))

/-- A character that takes a column of its line. -/
def IsInline (c : Char) : Prop :=
  isBreak c = false ∧ c ≠ '\uFEFF'

theorem next_of_inline {c : Char} (h : IsInline c) (p : Place) :
    p.next c = { p with index := p.index + 1, column := p.column + 1 } := by
  rw [next, h.1, if_neg Bool.false_ne_true, if_neg h.2]

/-- Behind characters of one line only index and column have moved. -/
theorem after_of_inline : ∀ {cs : List Char}, (∀ c ∈ cs, IsInline c) → ∀ p : Place,
    p.after cs = { p with index := p.index + cs.length, column := p.column + cs.length }
  | [], _, _ => rfl
  | c :: cs, h, p => by
      obtain ⟨hc, hcs⟩ := List.forall_mem_cons.mp h
      rw [after_cons, after_of_inline hcs, next_of_inline hc, List.length_cons, Nat.add_right_comm,
        Nat.add_right_comm p.column]
      rfl

theorem isInline_space : IsInline ' ' :=
  ⟨by decide, by decide⟩

theorem after_spaces (n : Nat) (p : Place) : p.after (List.replicate n ' ') =
    { p with index := p.index + n, column := p.column + n } := by
  rw [after_of_inline fun c hc => (List.mem_replicate.mp hc).2 ▸ isInline_space,
    List.length_replicate]

@[simp] theorem column_after_newLine (n : Nat) (p : Place) :
    (p.after (newLine n)).column = n := by
  rw [newLine, after_cons, after_spaces]
  exact Nat.zero_add n

theorem line_after_newLine (n : Nat) (p : Place) :
    (p.after (newLine n)).line = p.line + 1 := by
  rw [newLine, after_cons, after_spaces]
  rfl

end Place

/-! ## 3. Small steps of a cursor -/

namespace Cursor

@[simp] theorem past_eq (c : Cursor) (taken rest : List Char) :
    c.past taken rest = ⟨rest, c.place.after taken⟩ := rfl

@[simp] theorem drop_one (c : Char) (rest : List Char) (p : Place) :
    (⟨c :: rest, p⟩ : Cursor).drop 1 = ⟨rest, p.next c⟩ := rfl

/-- A run of characters of a class ends in front of one that is not. -/
theorem takeWhile_append {q : Char → Bool} {taken rest : List Char} (p : Place)
    (htaken : ∀ c ∈ taken, q c = true) (hrest : ∀ c ∈ rest.head?, q c = false) :
    (⟨taken ++ rest, p⟩ : Cursor).takeWhile q = (taken, ⟨rest, p.after taken⟩) := by
  have hnil : rest.takeWhile q = [] := by
    cases rest with
    | nil => rfl
    | cons c cs => rw [List.takeWhile_cons, hrest c rfl, if_neg Bool.false_ne_true]
  have hself : rest.dropWhile q = rest := by
    cases rest with
    | nil => rfl
    | cons c cs => rw [List.dropWhile_cons, hrest c rfl, if_neg Bool.false_ne_true]
  simp only [takeWhile, List.takeWhile_append_of_pos htaken, List.dropWhile_append_of_pos htaken,
    hnil, hself, List.append_nil, past_eq]

end Cursor

/-! ## 4. In front of the next token -/

/-- Nothing is skipped in front of these characters: no spaces, no breaks and no comment. -/
def Solid : List Char → Prop
  | [] => True
  | c :: _ => c ≠ ' ' ∧ c ≠ '#' ∧ isBreak c = false

theorem skipTrivia_solid {rest : List Char} (h : Solid rest) (broken : Bool) (p : Place) :
    skipTrivia false broken rest p = (broken, ⟨rest, p⟩) := by
  cases rest with
  | nil => rfl
  | cons c cs =>
    obtain ⟨hspace, hhash, hbreak⟩ := h
    simp [skipTrivia, hspace, hhash, hbreak]

theorem skipTrivia_spaces {rest : List Char} (h : Solid rest) (broken : Bool) :
    ∀ (n : Nat) (p : Place), skipTrivia false broken (List.replicate n ' ' ++ rest) p =
      (broken, ⟨rest, p.after (List.replicate n ' ')⟩)
  | 0, p => skipTrivia_solid h broken p
  | n + 1, p => by
      rw [List.replicate_succ, List.cons_append, skipTrivia, if_neg (by decide), if_pos (by simp),
        skipTrivia_spaces h broken n]
      rfl

/-- What is skipped at the end of a line. -/
theorem skipTrivia_newLine {rest : List Char} (h : Solid rest) (broken : Bool) (n : Nat)
    (p : Place) : skipTrivia false broken (newLine n ++ rest) p =
      (true, ⟨rest, p.after (newLine n)⟩) := by
  rw [newLine, List.cons_append, skipTrivia, if_pos (by decide),
    isHalfBreak_feed, if_neg Bool.false_ne_true, skipTrivia_spaces h]
  rfl

end Conform.Markup
