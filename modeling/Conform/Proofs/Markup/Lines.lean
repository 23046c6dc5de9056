import Conform.Proofs.Markup.ShortKeys

/-!
# Lines of block collections

How what is written for a node, an entry or a pair is read, whatever stands behind it on the next
line. `Scans` says this of a node behind a mark, `ScansLines` of lines that start at the column of
their collection. The rest of the file puts the second together from the first and turns lines into
a node, so that a tree can be dealt with by its parts alone.
-/

namespace Conform.Markup

open Layout Style

/-! ## 1. What pieces write -/

namespace Piece

theorem Writes.after {a b : Piece} {p q : Pen} {front text : List Char} (ha : a p = (front, q))
    (hb : b.Writes q text) : (a.andThen b).Writes p (front ++ text) := fun j => by
  rw [andThen_assoc, andThen_apply, ha, hb j, List.append_assoc]

theorem Writes.lines {a b : Piece} {p : Pen} {c : Nat} {text more : List Char}
    (ha : a.Writes p text) (hb : b.Writes ⟨c, true, true⟩ more) :
    (a.andThen ((indent c).andThen b)).Writes p (text ++ (newLine c ++ more)) := by
  have h := Writes.after (ha c) hb
  rw [andThen_assoc, List.append_assoc] at h
  exact h

end Piece

/-! ## 2. Nodes and lines -/

/-- Reading comes to a token behind a node that is closed there, or would be further out. -/
def Layout.Ends (s : Layout) (c : Cursor) (columns : List Nat) (tokens : List Token) : Prop :=
  s.Arrives c columns tokens ∨ ∃ (column : Nat) (before : List Token),
    innermost columns < column ∧ tokens = .blockEnd :: before ∧
      s.Arrives c (column :: columns) before

theorem Layout.Ends.arrives {s : Layout} {c : Cursor} {columns : List Nat} {tokens : List Token}
    (h : s.Ends c columns tokens) (hle : (c.place.column : Int) ≤ innermost columns) :
    s.Arrives c columns tokens := by
  rcases h with h | ⟨column, before, hlt, rfl, h⟩
  · exact h
  · exact h.close (Int.ofNat_lt.mp (Int.lt_of_le_of_lt hle hlt))

theorem innermost_of_head {columns : List Nat} {i : Nat} (h : columns.head? = some i) :
    innermost columns = i := by
  cases columns with
  | nil => cases h
  | cons c columns =>
    cases h
    rfl

/-- A piece writes a node behind a mark, inside a collection at a column, and the tokens of the node
    are read, if the next line is not further in. Behind an open-ended node at the root that is a
    marker. -/
def Scans (a : Piece) (w : Pen) (column : Option Nat) (openEnded : Bool) (read : List Token) : Prop :=
  ∃ text, a.Writes w text ∧ (∀ c ∈ text, Printed c) ∧ (∀ more, Apart (text ++ more)) ∧
    ∀ {j : Nat} {rest : List Char} {p : Place} {before : List Token} {columns : List Nat}
      {allowed : Bool}, columns.head? = column → innermost columns ≤ p.column →
      (w.fresh = true → p.column = w.column ∧ allowed = true) →
      (j : Int) ≤ innermost columns ∨ (j = 0 ∧ (openEnded = true → startsMarker rest = true)) →
      Solid rest →
      (block ⟨text ++ (newLine j ++ rest), p⟩ before columns allowed none).Ends
        ⟨rest, p.after (text ++ newLine j)⟩ columns (read.reverse ++ before)

/-- A piece writes lines of a collection at a column, and their tokens are read, behind the start of
    the collection if the lines are the first ones. -/
def ScansLines (a : Piece) (column : Nat) (start : Token) (read : List Token) : Prop :=
  ∃ text, a.Writes ⟨column, true, true⟩ text ∧ (∀ c ∈ text, Printed c) ∧
    (∀ more, Solid (text ++ more)) ∧
    ∀ {s : Layout} {j : Nat} {rest : List Char} {p : Place} {before : List Token}
      {columns : List Nat},
      s.front = .ok (block ⟨text ++ (newLine j ++ rest), p⟩ before columns true none) →
      p.column = column → innermost columns ≤ column → j ≤ column → Solid rest →
      s.Arrives ⟨rest, p.after (text ++ newLine j)⟩ (widened column columns)
        (read.reverse ++ opened start column columns before)

section Widened

variable {column : Nat} {columns : List Nat}

theorem innermost_widened (h : innermost columns ≤ column) :
    innermost (widened column columns) = column := by
  unfold widened
  split
  · rfl
  · omega

theorem head_widened (h : innermost columns ≤ column) :
    (widened column columns).head? = some column := by
  unfold widened
  split
  · rfl
  · cases columns with
    | nil =>
      rename_i hlt
      exact absurd (show (-1 : Int) < column by omega) hlt
    | cons c columns =>
      have hle : (c : Int) ≤ column := h
      have hnot : ¬ (c : Int) < column := ‹_›
      rw [List.head?_cons, Int.natCast_inj.mp (Int.le_antisymm hle (Int.not_lt.mp hnot))]

theorem widened_widened (h : innermost columns ≤ column) :
    widened column (widened column columns) = widened column columns := by
  rw [widened, innermost_widened h, if_neg (Int.lt_irrefl _)]

theorem opened_widened (h : innermost columns ≤ column) (t : Token) (tokens : List Token) :
    opened t column (widened column columns) tokens = tokens := by
  rw [opened, innermost_widened h, if_neg (Int.lt_irrefl _)]

end Widened

/-! ## 3. Lines behind lines -/

/-- What stands behind some lines of a collection: nothing, or more lines. -/
def Follows (b : Piece) (column : Nat) (start : Token) (more : List Token) : Prop :=
  (b = Piece.nothing ∧ more = []) ∨
    ∃ b', b = (Piece.indent column).andThen b' ∧ ScansLines b' column start more

/-- **Lines behind lines are lines of the same collection.** -/
theorem ScansLines.append {a b : Piece} {column : Nat} {start : Token} {read more : List Token}
    (ha : ScansLines a column start read) (hb : Follows b column start more) :
    ScansLines (a.andThen b) column start (read ++ more) := by
  rcases hb with ⟨rfl, rfl⟩ | ⟨b, rfl, hb⟩
  · rw [List.append_nil]
    have hnothing : a.andThen Piece.nothing = a := by
      funext p
      simp [Piece.andThen_apply, Piece.nothing]
    rw [hnothing]
    exact ha
  · obtain ⟨text, hwrites, hprinted, hsolid, hread⟩ := ha
    obtain ⟨text', hwrites', hprinted', hsolid', hread'⟩ := hb
    refine ⟨text ++ (newLine column ++ text'), hwrites.lines hwrites', ?_, fun rest => ?_, ?_⟩
    · simp only [List.forall_mem_append]
      exact ⟨hprinted, printed_newLine column, hprinted'⟩
    · rw [List.append_assoc]
      exact hsolid _
    · intro s j rest p before columns hfront hp hcolumns hj hrest
      have hfirst : s.front = .ok (block ⟨text ++ (newLine column ++ (text' ++ (newLine j ++ rest))),
          p⟩ before columns true none) := by
        rw [hfront]
        simp only [List.append_assoc]
      obtain ⟨s', hleads, hnext⟩ := hread hfirst hp hcolumns (Nat.le_refl _) (hsolid' _)
      have hplace : ((p.after (text ++ newLine column)).column : Int) = column := by
        rw [Place.after_append, Place.column_after_newLine]
      have hwide := innermost_widened hcolumns
      rw [hplace, closed_of_le (by omega), kept_of_le (by omega)] at hnext
      have hlast := hread' hnext (by omega) (by omega) hj hrest
      rw [widened_widened hcolumns, opened_widened hcolumns] at hlast
      rw [List.reverse_append, List.append_assoc]
      simp only [← List.append_assoc, Place.after_append] at hlast ⊢
      exact hleads.arrives hlast

/-! ## 4. Marks -/

/-- A mark with its token, and the start of the collection that it stands in. -/
inductive Mark : Char → Token → Token → Prop where
  | entry : Mark '-' .blockEntry .blockSequenceStart
  | key : Mark '?' .key .blockMappingStart
  | value : Mark ':' .value .blockMappingStart

/-- A mark in front of a node. -/
def markPiece (mark : Char) : Piece :=
  Piece.indicator [mark] true false true

theorem takeToken_mark {mark : Char} {t start : Token} (h : Mark mark t start) {rest : List Char}
    {p : Place} {tokens : List Token} {columns : List Nat} (hapart : Apart rest) :
    (block ⟨mark :: rest, p⟩ tokens columns true none).takeToken =
      .ok (block ⟨rest, p.next mark⟩ (t :: opened start p.column columns tokens)
        (widened p.column columns) true none) := by
  cases h with
  | entry => exact (takeToken_entry hapart).trans takeBlockEntry_block
  | key => exact (takeToken_key hapart).trans takeKey_block
  | value => exact (takeToken_value hapart).trans takeValue_block

/-- **A mark and a node behind it are lines of a collection.** -/
theorem Scans.marked {mark : Char} {t start : Token} (h : Mark mark t start) {a : Piece}
    {column : Nat} {openEnded : Bool} {read : List Token}
    (ha : Scans a ⟨column + 1, false, true⟩ (some column) openEnded read) :
    ScansLines ((markPiece mark).andThen a) column start (t :: read) := by
  obtain ⟨text, hwrites, hprinted, hapart, hread⟩ := ha
  have hmark : Printed mark ∧ Place.IsInline mark ∧ ∀ more, Solid (mark :: more) := by
    cases h with
    | entry => exact ⟨.inl (by decide), ⟨by decide, by decide⟩, fun _ => ⟨by decide, by decide, by decide⟩⟩
    | key => exact ⟨.inl (by decide), ⟨by decide, by decide⟩, fun _ => ⟨by decide, by decide, by decide⟩⟩
    | value => exact ⟨.inl (by decide), ⟨by decide, by decide⟩, fun _ => ⟨by decide, by decide, by decide⟩⟩
  have hlast : t ≠ .streamEnd := by
    cases h <;> simp
  refine ⟨mark :: text, @Piece.Writes.after _ _ _ _ [mark] _ rfl hwrites,
    List.forall_mem_cons.mpr ⟨hmark.1, hprinted⟩, fun more => hmark.2.2 _, ?_⟩
  intro s j rest p before columns hfront hp hcolumns hj hrest
  have hnext : (p.next mark).column = column + 1 := by
    rw [Place.next_of_inline hmark.2.1, hp]
  have htake := @takeToken_mark _ _ _ h _ p before columns (hapart (newLine j ++ rest))
  rw [hp] at htake
  have hwide := innermost_widened hcolumns
  have hends := @hread j rest (p.next mark) (t :: opened start column columns before) _ true
    (head_widened hcolumns) (by omega) (fun _ => ⟨hnext, rfl⟩) (.inl (by omega)) hrest
  have harrives := hends.arrives (by
    rw [Place.after_append, Place.column_after_newLine, hwide]
    exact Int.ofNat_le.mpr hj)
  have hleads : s.Leads _ := Leads.of_take hfront htake (by simpa using hlast) (by simp)
  rw [List.reverse_cons, List.append_assoc]
  exact hleads.arrives harrives

/-- **A short key and a value behind its colon are lines of a mapping.** -/
theorem Scans.keyed {k : Atom} (hk : k.Proper) (hbrief : k.Brief) (hshort : isShortAtom k = true)
    {a : Piece} {column : Nat} {openEnded : Bool} {read : List Token}
    (ha : Scans a ⟨column + (keyText k).length + 1, false, false⟩ (some column) openEnded read) :
    ScansLines ((atomPiece .key (some column) k).andThen
        ((Piece.indicator [':'] false false false).andThen a)) column .blockMappingStart
      (.key :: keyToken k :: .value :: read) := by
  obtain ⟨text, hwrites, hprinted, hapart, hread⟩ := ha
  obtain ⟨hshown, -⟩ := keyText_shown hk hbrief hshort
  have hplace := Place.after_of_inline (fun c hc => isInline_of_isShown (hshown c hc))
  refine ⟨keyText k ++ ':' :: text,
    Piece.Writes.after (atomPiece_key hk hshort (some column) rfl)
      (@Piece.Writes.after _ _ _ _ [':'] _ rfl hwrites), ?_, ?_, ?_⟩
  · exact List.forall_mem_append.mpr ⟨fun c hc => .inl (hshown c hc),
      List.forall_mem_cons.mpr ⟨.inl (by decide), hprinted⟩⟩
  · intro more
    rw [List.append_assoc]
    exact solid_keyText hk hshort _
  intro s j rest p before columns hfront hp hcolumns hj hrest
  have hwide := innermost_widened hcolumns
  have hnext : ((p.after (keyText k ++ [':'])).column : Int) = column + (keyText k).length + 1 := by
    rw [Place.after_append, hplace, hp]
    rfl
  have hfirst : s.front = .ok (block ⟨keyText k ++ ':' :: (text ++ (newLine j ++ rest)), p⟩ before
      columns true none) := by
    rw [hfront]
    simp only [List.append_assoc, List.cons_append]
  have hleads := leads_key hk hbrief hshort (hapart (newLine j ++ rest)) (by omega) hfirst
  rw [hp] at hleads
  have hends := @hread j rest (p.after (keyText k ++ [':']))
    (.value :: keyToken k :: .key :: opened .blockMappingStart column columns before) _ false
    (head_widened hcolumns) (by omega) (fun h => nomatch h) (.inl (by omega)) hrest
  have harrives := hends.arrives (by
    rw [Place.after_append, Place.column_after_newLine, hwide]
    exact Int.ofNat_le.mpr hj)
  have hafter : p.after (keyText k ++ ':' :: text ++ newLine j) =
      (p.after (keyText k ++ [':'])).after (text ++ newLine j) := by
    rw [← Place.after_append]
    simp
  rw [hafter]
  simp only [List.reverse_cons, List.append_assoc]
  exact hleads.arrives harrives

/-! ## 5. Nodes -/

/-- An indentation behind a mark, on its line or on the next one. -/
theorem indent_front {w : Pen} {c : Nat}
    (hfresh : w.fresh = true → c = w.column + 1) :
    ∃ gap, Piece.indent c w = (gap, ⟨c, true, true⟩) ∧ (∀ x ∈ gap, Printed x) ∧
      (∀ more, Apart (gap ++ more)) ∧
      ∀ {body : List Char} {p : Place} {before : List Token} {columns : List Nat} {allowed : Bool},
        innermost columns ≤ p.column → innermost columns ≤ c →
        (w.fresh = true → p.column = w.column ∧ allowed = true) → Solid body →
        (block ⟨gap ++ body, p⟩ before columns allowed none).front =
          .ok (block ⟨body, p.after gap⟩ before columns true none) ∧ (p.after gap).column = c := by
  cases hw : w.fresh with
  | true =>
    have hc := hfresh hw
    refine ⟨[' '], ?_, List.forall_mem_singleton.mpr printed_space, fun more => ⟨more, .inl rfl⟩, ?_⟩
    · rw [Piece.indent_of_fresh hw (by omega), hc, Nat.add_sub_cancel_left]
      rfl
    · intro body p before columns allowed hp hcolumns hpen hsolid
      obtain ⟨hcolumn, rfl⟩ := hpen rfl
      refine ⟨front_space hsolid hp (by simp), ?_⟩
      rw [Place.after_cons, Place.after_nil, Place.next_of_inline Place.isInline_space, hcolumn, hc]
  | false =>
    refine ⟨newLine c, Piece.indent_of_used hw c, printed_newLine c, fun more => ⟨_, .inr rfl⟩, ?_⟩
    intro body p before columns allowed hp hcolumns _ hsolid
    refine ⟨?_, Place.column_after_newLine c p⟩
    rw [front_newLine hsolid, closed_of_le hcolumns, kept_of_le hcolumns]

/-- The tokens of a collection, from those of its lines. A loose one is not enclosed. -/
def enclosed (loose : Bool) (start : Token) (read : List Token) : List Token :=
  if loose then read else start :: (read ++ [.blockEnd])

/-- **Lines of a collection are a node**, on the line of the mark in front of it or on the next one.
    They are enclosed if they are further in than the collection around them. -/
theorem ScansLines.scans {b : Piece} {w : Pen} {c : Nat} {column : Option Nat} {loose : Bool}
    {start : Token} {read : List Token} (hb : ScansLines b c start read)
    (hfresh : w.fresh = true → c = w.column + 1)
    (hloose : loose = true → column = some c)
    (hin : loose = false → ∀ i ∈ column, i < c) :
    Scans ((Piece.indent c).andThen b) w column false (enclosed loose start read) := by
  obtain ⟨gap, hindent, hgap, hapart, hfront⟩ := indent_front hfresh
  obtain ⟨text, hwrites, hprinted, hsolid, hread⟩ := hb
  refine ⟨gap ++ text, hwrites.after hindent, List.forall_mem_append.mpr ⟨hgap, hprinted⟩,
    fun more => ?_, ?_⟩
  · rw [List.append_assoc]
    exact hapart _
  · intro j rest p before columns allowed hcolumns hp hpen hj hrest
    have hc : innermost columns ≤ c ∧ (loose = false → innermost columns < c) ∧
        (loose = true → innermost columns = c) := by
      cases columns with
      | nil =>
        refine ⟨by simp only [innermost]; omega, fun _ => by simp only [innermost]; omega, fun h => ?_⟩
        rw [hloose h] at hcolumns
        cases hcolumns
      | cons i columns =>
        have hi : i ∈ column := hcolumns.symm
        have hinner : innermost (i :: columns) = i := rfl
        rw [hinner]
        cases hl : loose with
        | true =>
          obtain rfl : i = c := by
            rw [hloose hl] at hi
            exact (Option.mem_some_iff.mp hi).symm
          exact ⟨Int.le_refl _, fun h => (nomatch h), fun _ => rfl⟩
        | false =>
          have hlt := Int.ofNat_lt.mpr (hin hl i hi)
          exact ⟨Int.le_of_lt hlt, fun _ => hlt, fun h => (nomatch h)⟩
    obtain ⟨hnext, hcolumn⟩ := @hfront (text ++ (newLine j ++ rest)) p before columns allowed hp hc.1
      hpen (hsolid _)
    have harrives := hread hnext hcolumn hc.1 (by omega) hrest
    have hafter : p.after (gap ++ text ++ newLine j) = (p.after gap).after (text ++ newLine j) := by
      rw [← Place.after_append, List.append_assoc]
    rw [hafter, List.append_assoc]
    cases hl : loose with
    | true =>
      have hnone : ¬ innermost columns < (c : Int) := by
        rw [hc.2.2 hl]
        exact Int.lt_irrefl _
      rw [widened, opened, if_neg hnone, if_neg hnone] at harrives
      exact .inl harrives
    | false =>
      have hlt := hc.2.1 hl
      rw [widened, opened, if_pos hlt, if_pos hlt] at harrives
      refine .inr ⟨c, _, hlt, ?_, harrives⟩
      simp [enclosed]

/-- **An atom is a node.** -/
theorem scans_atom {a : Atom} (ha : a.Proper) {spot : Spot} (hspot : spot ≠ .key) {w : Pen}
    (hspaced : w.spaced = false) {column : Option Nat} (hw : ∀ i ∈ column, i ≤ w.column) :
    Scans (atomPiece spot column a) w column (isOpenEnded (.atom none a))
      (atomTokens true (scalarIndent column) a) := by
  have hfolds : (spot != .key) = true := by simpa using hspot
  have hwrites := writes_atomPiece spot column a hspaced
  rw [hfolds] at hwrites
  refine ⟨_, hwrites, List.forall_mem_cons.mpr ⟨printed_space, printed_scalarText ha _ _ _⟩,
    fun more => ⟨_, .inl rfl⟩, ?_⟩
  intro j rest p before columns allowed hcolumns hp _ hj hrest
  have hn : innermost columns + 2 ≤ scalarIndent column ∧ scalarIndent column ≤ w.column + 2 ∧
      2 ≤ scalarIndent column := by
    cases column with
    | none =>
      obtain rfl := List.head?_eq_none_iff.mp hcolumns
      simp only [innermost, scalarIndent]
      omega
    | some i =>
      rw [innermost_of_head hcolumns]
      have hi := hw i rfl
      simp only [scalarIndent]
      omega
  exact .inl (arrives_atom ha (by omega) (by omega) hp (by omega) hj hrest)

/-- **A pair of brackets is a node.** -/
theorem scans_brackets {opening closing : Char} {first last : Token}
    (h : Brackets opening closing first last) {w : Pen} (hspaced : w.spaced = false)
    (column : Option Nat) :
    Scans (bracketsPiece opening closing) w column false [first, last] := by
  have hshown : isShown opening = true ∧ isShown closing = true := by
    cases h <;> exact ⟨by decide, by decide⟩
  have hwrites : (bracketsPiece opening closing).Writes w [' ', opening, closing] := by
    refine .of_used ?_ ?_
    · simp [bracketsPiece, Piece.andThen_apply, Piece.indicator, hspaced]
    · simp [bracketsPiece, Piece.andThen_apply, Piece.indicator]
  refine ⟨_, hwrites, ?_, fun more => ⟨_, .inl rfl⟩, ?_⟩
  · simp only [List.forall_mem_cons]
    exact ⟨printed_space, .inl hshown.1, .inl hshown.2, fun _ hc => absurd hc List.not_mem_nil⟩
  intro j rest p before columns allowed _ hp _ _ hrest
  have hsolid : Solid (opening :: closing :: (newLine j ++ rest)) := by
    cases h <;> exact ⟨by decide, by decide, by decide⟩
  have hnext : ((p.next ' ').column : Int) = p.column + 1 := rfl
  have hfront := @front_space _ p before columns allowed none hsolid hp (by simp)
  have hleads := leads_brackets h hfront
  refine .inl (hleads.arrives ⟨_, Leads.refl _, ?_⟩)
  have hline : (p.next ' ').line < (((((p.next ' ').next opening).next closing).after (newLine j))).line := by
    rw [Place.line_after_newLine]
    exact Nat.lt_succ_of_le (Nat.le_trans (Place.line_le_next _ _) (Place.line_le_next _ _))
  rw [front_block (skipTrivia_newLine hrest false j _) (given_up_of_noted (by rw [hnext]; omega) hline)]
  rfl

end Conform.Markup
