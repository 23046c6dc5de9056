import Conform.Proofs.Markup.Lines

/-!
# The tokens of a record

A record is written as a tree of nodes, and its tokens follow the tree: those of an atom, a pair of
brackets, or the lines of a list or a mapping, which are enclosed unless they are loose. The tokens
of the document are read from what is written for the record, so reading never fails there
(`tokensOf_print`).
-/

namespace Conform

open Markup Markup.Layout

namespace Record

/-! ## 1. What is written and what is read -/

mutual

/-- A record as it is about to be written. -/
def written : Record → Written
  | .atom a => .atom none a
  | .list items => .list none (writtenAll items)
  | .map entries => .map none (writtenEntries entries)

/-- Records as they are about to be written. -/
def writtenAll : List Record → List Written
  | [] => []
  | r :: rs => written r :: writtenAll rs

/-- Pairs as they are about to be written. -/
def writtenEntries : List (Atom × Record) → List (Written × Written)
  | [] => []
  | (k, r) :: es => (.atom none k, written r) :: writtenEntries es

end

mutual

theorem ofValue_value : ∀ r : Record, Written.ofValue r.value = r.written
  | .atom _ => rfl
  | .list items => congrArg (Tree.list none) (relabelAll_values items)
  | .map entries => congrArg (Tree.map none) (relabelEntries_values entries)

theorem relabelAll_values : ∀ rs : List Record,
    Tree.relabelAll (fun _ => none) (fun r => nomatch r) (values rs) = writtenAll rs
  | [] => rfl
  | r :: rs => congr (congrArg List.cons (ofValue_value r)) (relabelAll_values rs)

theorem relabelEntries_values : ∀ es : List (Atom × Record),
    Tree.relabelEntries (fun _ => none) (fun r => nomatch r) (valueEntries es) = writtenEntries es
  | [] => rfl
  | (k, r) :: es =>
      congr (congrArg (fun t => List.cons (Tree.atom none k, t)) (ofValue_value r))
        (relabelEntries_values es)

end

mutual

/-- The tokens of a record inside a collection at a column. -/
def tokens (loose : Bool) (column : Option Nat) : Record → List Token
  | .atom a => atomTokens true (scalarIndent column) a
  | .list items =>
    if items.isEmpty then [.flowSequenceStart, .flowSequenceEnd]
    else enclosed loose .blockSequenceStart (entryTokens (listColumn loose column) items)
  | .map entries =>
    if entries.isEmpty then [.flowMappingStart, .flowMappingEnd]
    else enclosed false .blockMappingStart (pairTokens (blockIndent column) entries)

/-- The tokens of the entries of a list at a column. -/
def entryTokens (column : Nat) : List Record → List Token
  | [] => []
  | r :: rs => .blockEntry :: tokens false (some column) r ++ entryTokens column rs

/-- The tokens of the pairs of a mapping at a column. -/
def pairTokens (column : Nat) : List (Atom × Record) → List Token
  | [] => []
  | (k, r) :: es =>
    .key :: atomTokens (!isShortAtom k) (scalarIndent (some column)) k ++
      .value :: tokens (isShortAtom k) (some column) r ++ pairTokens column es

end

/-! ## 2. Where nodes stand -/

/-- A pen in front of a node inside a collection at a column, behind a mark or behind a key. -/
structure Stands (spot : Spot) (w : Pen) (column : Option Nat) : Prop where
  notKey : spot ≠ .key
  unspaced : w.spaced = false
  inside : ∀ i ∈ column, i ≤ w.column
  fresh : w.fresh = true → ∃ i, column = some i ∧ w.column = i + 1
  nested : spot.inMapping = true → ∃ i, column = some i

theorem stands_marked (spot : Spot) (hspot : spot ≠ .key) (column : Nat) :
    Stands spot ⟨column + 1, false, true⟩ (some column) where
  notKey := hspot
  unspaced := rfl
  inside := fun i hi => by cases hi; exact Nat.le_succ _
  fresh := fun _ => ⟨column, rfl, rfl⟩
  nested := fun _ => ⟨column, rfl⟩

theorem stands_keyed (column n : Nat) :
    Stands .part ⟨column + n + 1, false, false⟩ (some column) where
  notKey := by decide
  unspaced := rfl
  inside := fun i hi => by cases hi; exact Nat.le_add_right_of_le (Nat.le_add_right _ _)
  fresh := fun h => nomatch h
  nested := fun _ => ⟨column, rfl⟩

theorem isShortKey_atom (k : Atom) : isShortKey (.atom none k) = isShortAtom k := by
  rw [isShortKey, isShortAtom, keyLength?]
  cases atomKeyLength? k <;> rfl

theorem scans_congr {a b : Piece} {w : Pen} {column : Option Nat} {openEnded : Bool}
    {read : List Token} (h : a w = b w) (hb : Scans b w column openEnded read) :
    Scans a w column openEnded read := by
  obtain ⟨text, hwrites, hrest⟩ := hb
  refine ⟨text, fun j => ?_, hrest⟩
  rw [Piece.andThen_apply, h, ← Piece.andThen_apply]
  exact hwrites j

/-- Lines behind nothing are a node, if there are any. -/
theorem scans_follows {b : Piece} {spot : Spot} {w : Pen} {c : Nat} {column : Option Nat}
    (loose : Bool) {start t : Token} {read : List Token} (hb : Follows b c start (t :: read))
    (hw : Stands spot w column) (hc : c = if loose then column.getD 0 else blockIndent column)
    (hloose : loose = true → spot.inMapping = true ∧ w.fresh = false) :
    Scans b w column false (enclosed loose start (t :: read)) := by
  rcases hb with ⟨-, h⟩ | ⟨b, rfl, hb⟩
  · cases h
  · refine hb.scans (fun hfresh => ?_) (fun hl => ?_) (fun hl i hi => ?_)
    · obtain ⟨i, rfl, hi⟩ := hw.fresh hfresh
      cases hl : loose with
      | true => exact absurd hfresh (by simp [(hloose hl).2])
      | false =>
        rw [hc, hl, hi]
        rfl
    · obtain ⟨i, rfl⟩ := hw.nested (hloose hl).1
      rw [hc, hl]
      rfl
    · rw [hc, hl, Option.mem_def.mp hi]
      simp only [Bool.false_eq_true, if_false, blockIndent]
      omega

mutual

/-- **A record is a node**, wherever it stands. -/
theorem scans_written {spot : Spot} {w : Pen} {column : Option Nat} (hw : Stands spot w column) :
    ∀ r : Record, r.Proper → Scans (nodePiece spot column r.written) w column
      (isOpenEnded r.written) (r.tokens (spot.inMapping && !w.fresh) column)
  | .atom a => fun h => by
      rw [written, nodePiece, anchorPiece, Piece.nothing_andThen]
      exact scans_atom h hw.notKey hw.unspaced hw.inside
  | .list [] => fun _ => by
      rw [written, writtenAll, nodePiece, anchorPiece, Piece.nothing_andThen]
      exact scans_brackets .list hw.unspaced column
  | .list (r :: rs) => fun h => by
      have hfollows := follows_entries (listColumn (spot.inMapping && !w.fresh) column) (r :: rs) h
      have hindent : sequenceIndent spot column w = listColumn (spot.inMapping && !w.fresh) column :=
        rfl
      rw [written, writtenAll, nodePiece, anchorPiece, Piece.nothing_andThen]
      refine scans_congr (b := entriesPiece (sequenceIndent spot column w) (writtenAll (r :: rs))) rfl ?_
      rw [hindent]
      refine scans_follows _ hfollows hw rfl fun hl => ?_
      rw [Bool.and_eq_true, Bool.not_eq_true'] at hl
      exact hl
  | .map [] => fun _ => by
      rw [written, writtenEntries, nodePiece, anchorPiece, Piece.nothing_andThen]
      exact scans_brackets .map hw.unspaced column
  | .map ((k, r) :: es) => fun h => by
      have hfollows := follows_entriesOf (blockIndent column) ((k, r) :: es) h.2
      rw [written, writtenEntries, nodePiece, anchorPiece, Piece.nothing_andThen]
      exact scans_follows false hfollows hw rfl fun hl => nomatch hl

/-- The entries of a list follow each other. -/
theorem follows_entries (column : Nat) : ∀ rs : List Record, ProperAll rs →
    Follows (entriesPiece column (writtenAll rs)) column .blockSequenceStart (entryTokens column rs)
  | [] => fun _ => .inl ⟨rfl, rfl⟩
  | r :: rs => fun h => by
      have hnode := scans_written (stands_marked .entry (by decide) column) r h.1
      have hlines := (hnode.marked .entry).append (follows_entries column rs h.2)
      refine .inr ⟨_, ?_, hlines⟩
      rw [writtenAll, entriesPiece, entryPiece]
      simp only [Piece.andThen_assoc]
      rfl

/-- The pairs of a mapping follow each other. -/
theorem follows_entriesOf (column : Nat) : ∀ es : List (Atom × Record), ProperEntries es →
    Follows (pairsPiece column (writtenEntries es)) column .blockMappingStart (pairTokens column es)
  | [] => fun _ => .inl ⟨rfl, rfl⟩
  | (k, r) :: es => fun ⟨hk, hbrief, hr, hes⟩ => by
      have hmore := follows_entriesOf column es hes
      rw [writtenEntries, pairsPiece, isShortKey_atom, pairTokens]
      cases hshort : isShortAtom k with
      | true =>
        have hnode := scans_written (stands_keyed column (keyText k).length) r hr
        have hlines := (hnode.keyed hk hbrief hshort).append hmore
        have htoken := atomTokens_unfolded hshort (scalarIndent (some column))
        rw [Bool.not_true, htoken]
        refine .inr ⟨_, ?_, hlines⟩
        simp only [keyPiece, colonPiece, nodePiece, anchorPiece, Piece.nothing_andThen, if_true,
          Piece.andThen_assoc]
      | false =>
        have hstands := stands_marked .part (by decide) column
        have hkey := scans_atom hk hstands.notKey hstands.unspaced hstands.inside
        have hnode := scans_written hstands r hr
        have hvalue := (hnode.marked .value).append hmore
        have hlines := (hkey.marked .key).append (.inr ⟨_, rfl, hvalue⟩)
        rw [Bool.not_false, List.append_assoc]
        refine .inr ⟨_, ?_, hlines⟩
        simp only [keyPiece, colonPiece, nodePiece, anchorPiece, Piece.nothing_andThen,
          Bool.false_eq_true, if_false, Piece.andThen_assoc, markPiece]

end

end Record

namespace Markup

/-! ## 3. Documents -/

theorem closed_append (column : Int) : ∀ (columns : List Nat) (tokens : List Token),
    -1 ≤ column → closed (-1) (kept column columns) (closed column columns tokens) =
      closed (-1) columns tokens
  | [], _, _ => rfl
  | c :: columns, tokens, h => by
      by_cases hlt : column < c
      · have hend : (-1 : Int) < c := by omega
        rw [kept_cons_of_lt hlt, closed_cons_of_lt hlt, closed_append column columns _ h,
          closed_cons_of_lt hend]
      · have hle : innermost (c :: columns) ≤ column := Int.not_lt.mp hlt
        rw [kept_of_le hle, closed_of_le hle]

theorem kept_all : ∀ columns : List Nat, kept (-1) columns = []
  | [] => rfl
  | c :: columns => by
      rw [kept_cons_of_lt (by omega), kept_all columns]

/-- In front of the end of a document everything that is still open is closed by it. -/
theorem Layout.Ends.closing {s : Layout} {c : Cursor} {tokens : List Token}
    (h : s.Ends c [] tokens) : ∃ (s' : Layout) (columns : List Nat) (before : List Token),
      s.Leads s' ∧ s'.front = .ok (block c before columns true none) ∧
        closed (-1) columns before = tokens := by
  rcases h with ⟨s', hleads, hfront⟩ | ⟨column, before, hlt, rfl, s', hleads, hfront⟩
  · exact ⟨s', _, _, hleads, hfront, rfl⟩
  · refine ⟨s', _, _, hleads, hfront, ?_⟩
    rw [closed_append _ _ _ (by omega), closed_cons_of_lt (by omega)]
    rfl

/-- What stands behind the root: nothing, or a marker if it is open-ended. -/
def closingText (openEnded : Bool) : List Char :=
  if openEnded then ['.', '.', '.', '\n'] else []

theorem closingText_printed (openEnded : Bool) :
    (∀ c ∈ closingText openEnded, Printed c) ∧ Solid (closingText openEnded) := by
  have hshown : ∀ c ∈ ['.', '.', '.', '\n'], Style.isShown c = true ∨ isOwnBreak c = true :=
    List.all_iff_forall_prop.mp (by decide)
  cases openEnded with
  | false => exact ⟨fun _ hc => absurd hc List.not_mem_nil, trivial⟩
  | true => exact ⟨hshown, by decide, by decide, by decide⟩

/-- A document is a marker, its root from there on, and what stands behind it. -/
theorem print_eq {t : Written} {text : List Char}
    (h : (nodePiece .root none t).Writes ⟨3, false, false⟩ text) :
    print t = ['-', '-', '-'] ++ (text ++ (newLine 0 ++ closingText (isOpenEnded t))) := by
  have hassoc : ∀ stop : Piece, ((((Piece.indicator "---".toList true false false).andThen
      (nodePiece .root none t)).andThen (Piece.indent 0)).andThen stop) =
      (Piece.indicator "---".toList true false false).andThen
        (((nodePiece .root none t).andThen (Piece.indent 0)).andThen stop) := by
    intro stop
    simp only [Piece.andThen_assoc]
  have hstart : Piece.indicator "---".toList true false false {} =
      (['-', '-', '-'], ⟨3, false, false⟩) := rfl
  rw [print, hassoc, Piece.andThen_apply, hstart, Piece.andThen_apply, h 0]
  cases isOpenEnded t with
  | false => simp [Piece.nothing, closingText]
  | true =>
    have hmarker : (Piece.indicator "...".toList true false false).andThen (Piece.indent 0)
        ⟨0, true, true⟩ = (['.', '.', '.', '\n'], ⟨0, true, true⟩) := rfl
    rw [if_pos rfl, hmarker]
    simp [closingText]

/-- Reading at the end of a document takes its last tokens. -/
theorem tokensFrom_closing {s : Layout} {openEnded : Bool} {p : Place} {tokens : List Token} {n : Nat}
    (hn : s.cursor.rest.length < n) (hp : p.column = 0)
    (h : s.Ends ⟨closingText openEnded, p⟩ [] tokens) :
    tokensFrom n s =
      ⟨tokens.reverse ++ ((if openEnded then [.documentEnd] else []) ++ [.streamEnd]), none⟩ := by
  obtain ⟨s', columns, before, hleads, hfront, rfl⟩ := h.closing
  obtain ⟨m, hm, hrun⟩ := hleads n hn
  rw [hrun]
  cases openEnded with
  | false =>
    have htake := @takeEnd_block ⟨[], p⟩ before columns true none (by simp)
    rw [tokensFrom_of_end hm hfront htake rfl]
    simp
  | true =>
    have hmark : (block ⟨'.' :: '.' :: '.' :: ['\n'], p⟩ before columns true none).takeToken = _ :=
      (takeToken_marker (.inr rfl) hp ⟨[], .inr rfl⟩).trans (takeMarker_block (by simp))
    have hnext := @front_newLine [] 0 (p.after ['.', '.', '.'])
      (.documentEnd :: closed (-1) columns before) (kept (-1) columns) false trivial
    have hlead := Leads.of_take hfront hmark (by simp) (by simp [Cursor.drop, closingText])
    obtain ⟨k, hk, hrun'⟩ := hlead m hm
    have htake := @takeEnd_block ⟨[], (p.after ['.', '.', '.']).after (newLine 0)⟩
      (.documentEnd :: closed (-1) columns before) [] true none (by simp)
    rw [kept_all] at hnext hrun' hk
    rw [hrun', tokensFrom_of_end hk hnext htake rfl]
    simp [closed, closeTo]

theorem stands_root : Record.Stands .root ⟨3, false, false⟩ none where
  notKey := by decide
  unspaced := rfl
  inside := fun i hi => nomatch hi
  fresh := fun h => nomatch h
  nested := fun h => nomatch h

/-- The tokens of a document. -/
def documentTokens (r : Record) : List Token :=
  .documentStart :: (r.tokens false none ++
    ((if isOpenEnded r.written then [.documentEnd] else []) ++ [.streamEnd]))

/-- **A record is written as a source, and read as its tokens.** -/
theorem tokensOf_print {r : Record} (hr : r.Proper) :
    isSource (print r.written) = true ∧
      tokensOf (print r.written) = ⟨documentTokens r, none⟩ := by
  obtain ⟨text, hwrites, hprinted, hapart, hread⟩ := r.scans_written stands_root hr
  rw [print_eq hwrites]
  refine ⟨isSource_of_printed ?_, ?_⟩
  · simp only [List.forall_mem_append]
    have hmark : ∀ c ∈ ['-', '-', '-'], Style.isShown c = true :=
      List.all_eq_true.mp (by decide)
    exact ⟨fun c hc => .inl (hmark c hc), hprinted, printed_newLine 0, (closingText_printed _).1⟩
  · have hsolid : Solid (['-', '-', '-'] ++ (text ++ (newLine 0 ++
        closingText (isOpenEnded r.written)))) := ⟨by decide, by decide, by decide⟩
    have hfront := @front_block_of_solid ⟨_, {}⟩ [] [] true none hsolid (by simp)
    have htake := (@takeToken_marker {} _ [] [] true none _ (.inl rfl) rfl
      (hapart (newLine 0 ++ closingText (isOpenEnded r.written)))).trans
        (takeMarker_block (by simp))
    have hends := @hread 0 (closingText (isOpenEnded r.written)) ⟨3, 0, 3⟩ [.documentStart] [] false
      rfl (by decide) (fun h => nomatch h) (.inr ⟨rfl, fun h => by rw [h]; rfl⟩)
      (closingText_printed _).2
    have hlead := Leads.of_take hfront htake (by simp) (by simp [Cursor.drop]; omega)
    obtain ⟨m, hm, hrun⟩ := hlead _ (Nat.lt_succ_self _)
    have hclosing := tokensFrom_closing hm (by
      rw [Place.after_append, Place.column_after_newLine]) hends
    rw [tokensOf]
    refine hrun.trans (hclosing.trans ?_)
    rw [List.reverse_append, List.reverse_reverse]
    rfl

end Markup

end Conform
