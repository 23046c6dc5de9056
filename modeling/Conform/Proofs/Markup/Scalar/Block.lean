import Conform.Markup.Print
import Conform.Proofs.Base64
import Conform.Proofs.Failing
import Conform.Proofs.Markup.Scalar.Gap

/-!
# Lines of letters are read as they were written

Bytes are written as lines of letters under a header, each at the same indentation. The reader finds
the indentation from the first line, takes the lines with one line feed behind each, and stops on
the first line that is indented less (`readBlock_lines`).
-/

namespace Conform.Markup

open Style

/-! ## 1. The lines of a written form -/

theorem splitOn_append {separator : Char} {rest : List Char} : ∀ {l : List Char}, separator ∉ l →
    Numeral.splitOn separator (l ++ separator :: rest) = l :: Numeral.splitOn separator rest
  | [], _ => by rw [List.nil_append, Numeral.splitOn, if_pos rfl]
  | c :: l, h => by
      obtain ⟨hc, hl⟩ := not_or.mp fun hor => h (List.mem_cons.mpr hor)
      rw [List.cons_append, Numeral.splitOn, if_neg fun e => hc e.symm, splitOn_append hl]

theorem splitOn_lines {separator : Char} : ∀ {ls : List (List Char)}, (∀ l ∈ ls, separator ∉ l) →
    Numeral.splitOn separator (ls.flatMap fun l => l ++ [separator]) = ls ++ [[]]
  | [], _ => rfl
  | l :: ls, h => by
      obtain ⟨hl, hls⟩ := List.forall_mem_cons.mp h
      rw [List.flatMap_cons, List.append_assoc, List.singleton_append, splitOn_append hl,
        splitOn_lines hls]
      rfl

/-- A line of letters: there are some, and each is shown as it is and no space. -/
def IsLine (l : List Char) : Prop :=
  l ≠ [] ∧ ∀ c ∈ l, isShown c = true ∧ c ≠ ' '

/-- Lines of letters, each at an indentation. -/
def indented (n : Nat) (ls : List (List Char)) : List Char :=
  ls.flatMap fun l => newLine n ++ l

theorem literalLines_lines {n : Nat} {ls : List (List Char)} (h : ∀ l ∈ ls, IsLine l) :
    literalLines n (ls.flatMap fun l => l ++ ['\n']) = indented n ls := by
  have hfeed : ∀ l ∈ ls, '\n' ∉ l := fun l hl hmem =>
    absurd ((h l hl).2 '\n' hmem).1 (by decide)
  rw [literalLines]
  rw [splitOn_lines hfeed, List.flatMap_append, List.flatMap_singleton]
  simp only [List.isEmpty_nil, if_true, List.append_nil]
  rw [indented, List.flatMap_def, List.flatMap_def]
  congr 1
  refine List.map_congr_left fun l hl => ?_
  rw [if_neg]
  simpa using (h l hl).1

/-- The lines of some bytes. -/
def byteLines (bs : List UInt8) : List (List Char) :=
  Base64.chunks bs.length bs

theorem encode_eq (bs : List UInt8) :
    Base64.encode bs = (byteLines bs).flatMap fun l => l ++ ['\n'] :=
  Base64.lines_eq bs.length bs

theorem isLine_of_mem_byteLines {bs : List UInt8} {l : List Char} (h : l ∈ byteLines bs) :
    IsLine l :=
  Base64.of_mem_chunks h

theorem byteLines_ne_nil {bs : List UInt8} (h : bs ≠ []) : byteLines bs ≠ [] := by
  obtain ⟨a, more, rfl⟩ := List.exists_cons_of_ne_nil h
  exact List.cons_ne_nil _ _

theorem literalLines_encode (n : Nat) (bs : List UInt8) :
    literalLines n (Base64.encode bs) = indented n (byteLines bs) := by
  rw [encode_eq, literalLines_lines fun l hl => isLine_of_mem_byteLines hl]

/-! ## 2. Reading lines -/

theorem readLeadingLines_spaces {c : Char} {rest : List Char} (hc : c ≠ ' ')
    (hbreak : isBreak c = false) : ∀ (k : Nat) {widest : Nat} {p : Place}, widest = p.column →
    readLeadingLines [] widest (List.replicate k ' ' ++ c :: rest) p =
      ([], p.column + k, ⟨c :: rest, p.after (List.replicate k ' ')⟩)
  | 0, widest, p => fun h => by
      rw [List.replicate_zero, List.nil_append, readLeadingLines, if_neg hc, hbreak,
        if_neg Bool.false_ne_true, h]
      rfl
  | k + 1, widest, p => fun h => by
      have hcolumn : (p.next ' ').column = p.column + 1 := rfl
      have hmax : max widest (p.next ' ').column = (p.next ' ').column := by omega
      rw [List.replicate_succ, List.cons_append, readLeadingLines, if_pos rfl, hmax,
        readLeadingLines_spaces hc hbreak k rfl, hcolumn, Nat.add_assoc, Nat.add_comm 1 k]
      rfl

section Lines

variable {n : Nat} {reversed rest : List Char}

/-- The characters of a line are taken as they are. -/
theorem readLinesFrom_line {state : Bool} : ∀ {l : List Char} (reversed : List Char) (p : Place),
    (∀ c ∈ l, isShown c = true) →
    readLinesFrom false .clip n (.line state) reversed (l ++ rest) p =
      readLinesFrom false .clip n (.line state) (l.reverse ++ reversed) rest (p.after l)
  | [], _, _ => fun _ => rfl
  | c :: l, reversed, p => fun h => by
      obtain ⟨hc, hl⟩ := List.forall_mem_cons.mp h
      rw [List.cons_append, readLinesFrom]
      simp only [isBreak_of_isShown hc, Bool.false_eq_true, if_false]
      rw [readLinesFrom_line _ _ hl]
      simp

theorem readLinesFrom_spaces {state : Bool} {ended : Char} {breaks : List Char} :
    ∀ (k : Nat) {p : Place}, p.column + k ≤ n →
    readLinesFrom false .clip n (.between state ended breaks) reversed
        (List.replicate k ' ' ++ rest) p =
      readLinesFrom false .clip n (.between state ended breaks) reversed rest
        (p.after (List.replicate k ' '))
  | 0, _ => fun _ => rfl
  | k + 1, p => fun h => by
      have hcolumn : (p.next ' ').column = p.column + 1 := rfl
      have hlt : p.column < n := by omega
      rw [List.replicate_succ, List.cons_append, readLinesFrom]
      simp only [hlt, decide_true, Bool.and_self, if_true]
      rw [readLinesFrom_spaces k (by omega)]
      rfl

/-- The next line, at the same indentation. -/
theorem readLinesFrom_newLine {state : Bool} {c : Char} (hc : isShown c = true) (hspace : c ≠ ' ')
    (p : Place) : readLinesFrom false .clip n (.line state) reversed (newLine n ++ c :: rest) p =
      readLinesFrom false .clip n (.line (isSpacing c)) (c :: '\n' :: reversed) rest
        ((p.after (newLine n)).next c) := by
  have hcolumn : (p.next '\n').column = 0 := rfl
  have hend : ((p.next '\n').after (List.replicate n ' ')).column = n :=
    Place.column_after_newLine n p
  rw [newLine, List.cons_append, readLinesFrom]
  simp only [show isBreak '\n' = true by decide, if_true]
  rw [readLinesFrom_spaces n (by omega), readLinesFrom]
  simp only [hspace, hend, isBreak_of_isShown hc, decide_false, Bool.false_and, Bool.false_eq_true,
    if_false, if_true]
  rfl

/-- A line that is indented less ends the scalar, with one line feed at its end. -/
theorem readLinesFrom_end {state : Bool} {j : Nat} (hsolid : Solid rest) (hj : j < n) (p : Place) :
    readLinesFrom false .clip n (.line state) reversed (newLine j ++ rest) p =
      (reversed.reverse ++ ['\n'], ⟨rest, p.after (newLine j)⟩) := by
  have hcolumn : (p.next '\n').column = 0 := rfl
  have hend : ((p.next '\n').after (List.replicate j ' ')).column = j :=
    Place.column_after_newLine j p
  rw [newLine, List.cons_append, readLinesFrom]
  simp only [show isBreak '\n' = true by decide, if_true]
  rw [readLinesFrom_spaces j (by omega)]
  cases rest with
  | nil => rfl
  | cons c cs =>
    obtain ⟨hspace, -, hbreak⟩ := hsolid
    rw [readLinesFrom]
    simp only [hspace, hend, hbreak, Nat.ne_of_lt hj, decide_false, Bool.false_and,
      Bool.false_eq_true, if_false]
    rfl

/-- Lines of letters, from within one of them to the end. -/
theorem readLinesFrom_lines {j : Nat} (hsolid : Solid rest) (hj : j < n) :
    ∀ {ls : List (List Char)} {state : Bool} {reversed : List Char} {p : Place},
    (∀ l ∈ ls, IsLine l) →
    readLinesFrom false .clip n (.line state) reversed (indented n ls ++ (newLine j ++ rest)) p =
      (reversed.reverse ++ '\n' :: ls.flatMap fun l => l ++ ['\n'],
        ⟨rest, p.after (indented n ls ++ newLine j)⟩)
  | [], _, _, p => fun _ => readLinesFrom_end hsolid hj p
  | l :: ls, state, reversed, p => fun h => by
      obtain ⟨⟨hne, hl⟩, hls⟩ := List.forall_mem_cons.mp h
      obtain ⟨c, l, rfl⟩ := List.exists_cons_of_ne_nil hne
      obtain ⟨⟨hc, hspace⟩, hl⟩ := List.forall_mem_cons.mp hl
      have hwrite : indented n ((c :: l) :: ls) = newLine n ++ c :: (l ++ indented n ls) := by
        simp [indented]
      rw [hwrite, List.append_assoc, List.cons_append, List.append_assoc,
        readLinesFrom_newLine hc hspace, readLinesFrom_line _ _ fun d hd => (hl d hd).1,
        readLinesFrom_lines hsolid hj hls]
      simp [Place.after_append]

end Lines

/-! ## 3. The whole scalar -/

/-- **Lines of letters come back** with a line feed behind each. -/
theorem readBlock_lines {parent : Int} {n j : Nat} {rest : List Char} {ls : List (List Char)}
    (hne : ls ≠ []) (hls : ∀ l ∈ ls, IsLine l) (hleast : (max (parent + 1) 1).toNat ≤ n)
    (hj : j < n) (hsolid : Solid rest) (p : Place) :
    readBlock false parent ⟨'|' :: (indented n ls ++ (newLine j ++ rest)), p⟩ =
      .ok (ls.flatMap fun l => l ++ ['\n'],
        ⟨rest, p.after ('|' :: (indented n ls ++ newLine j))⟩) := by
  obtain ⟨l, ls, rfl⟩ := List.exists_cons_of_ne_nil hne
  obtain ⟨⟨hne, hl⟩, hmore⟩ := List.forall_mem_cons.mp hls
  obtain ⟨c, l, rfl⟩ := List.exists_cons_of_ne_nil hne
  obtain ⟨⟨hc, hspace⟩, hl⟩ := List.forall_mem_cons.mp hl
  have hwrite : indented n ((c :: l) :: ls) =
      '\n' :: (List.replicate n ' ' ++ c :: (l ++ indented n ls)) := by
    simp [indented, newLine]
  have hheader : readBlockHeader ((⟨'|' :: (indented n ((c :: l) :: ls) ++ (newLine j ++ rest)), p⟩
      : Cursor).drop 1) = .ok ({}, ⟨List.replicate n ' ' ++ c :: (l ++ indented n ls) ++
        (newLine j ++ rest), (p.next '|').next '\n'⟩) := by
    rw [hwrite]
    rfl
  have hcolumn : ((p.next '|').next '\n').column = 0 := rfl
  have hplace : (((p.next '|').next '\n').after (List.replicate n ' ')).column = n :=
    Place.column_after_newLine n (p.next '|')
  have hwidest : max (max (parent + 1) 1).toNat n = n := by omega
  rw [readBlock, hheader]
  simp only [ok_bind, readIndentation]
  rw [List.append_assoc, List.cons_append, List.append_assoc,
    readLeadingLines_spaces hspace (isBreak_of_isShown hc) n hcolumn.symm, hcolumn, Nat.zero_add,
    hwidest]
  simp only [readLines, hplace, if_true]
  rw [readLinesFrom_line _ _ fun d hd => (hl d hd).1, readLinesFrom_lines hsolid hj hmore, hwrite]
  simp [Place.after_append]

end Conform.Markup
