import Mathlib.Data.List.Basic
import Conform.Proofs.Reports

/-!
# The lines of a text

A report has lines of its own, and each of them may run over several lines of the rendered text. This
file says how the lines of a text are put together from those of its parts: a part without a line
feed lengthens the first line in front (`splitOn_append_of_not_mem`) and the last one behind
(`exists_splitOn_append`), and parts that are joined by line feeds keep their lines (`lines_join`).
-/

namespace Conform

theorem splitOn_append_of_not_mem {α : Type} [BEq α] [LawfulBEq α] {a : α} {front : List α}
    (h : a ∉ front) (rest : List α) :
    (front ++ rest).splitOn a = (rest.splitOn a).modifyHead (front ++ ·) := by
  induction front with
  | nil =>
    rw [List.nil_append]
    cases rest.splitOn a <;> rfl
  | cons c front ih =>
    obtain ⟨hc, hfront⟩ := not_or.mp fun hor => h (List.mem_cons.mpr hor)
    have hne : (c == a) = false := beq_eq_false_iff_ne.mpr (Ne.symm hc)
    rw [List.cons_append, List.splitOn_cons_eq_if_modifyHead, hne, if_neg Bool.false_ne_true,
      ih hfront]
    cases rest.splitOn a <;> rfl

/-- Behind a text, a part without a line feed lengthens the last line. -/
theorem exists_splitOn_append {α : Type} [BEq α] [LawfulBEq α] {a : α} {back : List α}
    (h : a ∉ back) (cs : List α) :
    ∃ init last, cs.splitOn a = init ++ [last] ∧ (cs ++ back).splitOn a = init ++ [last ++ back] := by
  induction cs with
  | nil =>
    refine ⟨[], [], List.splitOn_nil a, ?_⟩
    have hback := splitOn_append_of_not_mem h []
    rw [List.splitOn_nil, List.append_nil] at hback
    rw [List.nil_append, hback]
    simp
  | cons c cs ih =>
    obtain ⟨init, last, hcs, hback⟩ := ih
    rw [List.cons_append, List.splitOn_cons_eq_if_modifyHead, List.splitOn_cons_eq_if_modifyHead,
      hcs, hback]
    cases c == a with
    | true => exact ⟨[] :: init, last, rfl, rfl⟩
    | false =>
      cases init with
      | nil => exact ⟨[], c :: last, rfl, rfl⟩
      | cons first init => exact ⟨(c :: first) :: init, last, rfl, rfl⟩

theorem exists_splitOn {α : Type} [BEq α] (a : α) (cs : List α) :
    ∃ first rest, cs.splitOn a = first :: rest :=
  List.exists_cons_of_ne_nil (List.splitOn_ne_nil a cs)

/-- A part of a split list does not hold what the list is split at. -/
theorem not_mem_part {α : Type} [BEq α] [LawfulBEq α] {a : α} : ∀ {cs part : List α},
    part ∈ cs.splitOn a → a ∉ part
  | [], part, h => by
      rw [List.splitOn_nil, List.mem_singleton] at h
      rw [h]
      exact List.not_mem_nil
  | c :: cs, part, h => by
      obtain ⟨first, rest, hsplit⟩ := exists_splitOn a cs
      have hparts : ∀ part ∈ first :: rest, a ∉ part := fun part hpart =>
        not_mem_part (hsplit ▸ hpart)
      obtain ⟨hfirst, hrest⟩ := List.forall_mem_cons.mp hparts
      rw [List.splitOn_cons_eq_if_modifyHead, hsplit] at h
      split at h
      · rcases List.mem_cons.mp h with rfl | h
        · exact List.not_mem_nil
        · exact hparts part h
      · rename_i hne
        rcases List.mem_cons.mp h with rfl | h
        · rw [List.mem_cons, not_or]
          exact ⟨fun e => hne (beq_iff_eq.mpr e.symm), hfirst⟩
        · exact hrest part h

namespace Text

/-- The lines of a text. -/
def lines (t : Text) : List Text :=
  t.splitOn (.char '\n')

theorem lines_ofChars (cs : List Char) : lines (ofChars cs) = (cs.splitOn '\n').map ofChars := by
  induction cs with
  | nil => simp [lines, ofChars]
  | cons c cs ih =>
    obtain ⟨first, rest, hsplit⟩ := exists_splitOn '\n' cs
    have hmore : lines (ofChars cs) = ofChars first :: rest.map ofChars := by
      rw [ih, hsplit, List.map_cons]
    rw [lines, ofChars] at *
    rw [List.map_cons, List.splitOn_cons_eq_if_modifyHead, hmore,
      List.splitOn_cons_eq_if_modifyHead, hsplit]
    by_cases hc : c = '\n'
    · subst hc
      simp [ofChars]
    · have hne : CodePoint.char c ≠ .char '\n' := fun e => hc (CodePoint.char.inj e)
      simp [hc, hne, ofChars]

/-- Texts that are joined by line feeds keep their lines. -/
theorem lines_join {ts : List Text} (h : ts ≠ []) :
    lines (join (ofChars ['\n']) ts) = ts.flatMap lines := by
  obtain ⟨t, ts, rfl⟩ := List.exists_cons_of_ne_nil h
  rw [Report.join_cons, List.flatMap_cons]
  induction ts generalizing t with
  | nil => simp
  | cons u ts ih =>
    have hfeed : t ++ (u :: ts).flatMap (ofChars ['\n'] ++ ·) =
        t ++ .char '\n' :: (u ++ ts.flatMap (ofChars ['\n'] ++ ·)) := rfl
    rw [hfeed, lines, List.splitOn_append_cons_self, List.flatMap_cons, ← ih u (by simp)]
    rfl

end Text

end Conform
