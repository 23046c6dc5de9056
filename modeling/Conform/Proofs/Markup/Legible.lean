import Conform.Proofs.Markup.Markers

/-!
# The characters of a written document

Whatever a record holds, the document that it is written as consists of characters that are shown as
they are and of breaks (`legible_print`). A control reaches a document only as an escape between
double quotes, because a text with a control neither stands without quotes nor between single ones.
The pieces of a document are put together from a few kinds, so it is enough that each kind writes
legible characters only.
-/

namespace Conform.Markup

open Style

/-! ## 1. Legible characters -/

/-- A character that is shown as it is, or a break. -/
def Legible (c : Char) : Prop :=
  isShown c = true ∨ isAnyBreak c = true

theorem Printed.legible {c : Char} (h : Printed c) : Legible c :=
  h.imp_right isAnyBreak_of_isOwnBreak

theorem legible_space : Legible ' ' := printed_space.legible

theorem legible_feed : Legible '\n' := .inr (by decide)

/-- What stands plainly in the text of the program is legible if all of it is. -/
theorem legible_of_all {cs : List Char} (h : cs.all isShown = true) : ∀ c ∈ cs, Legible c :=
  fun c hc => .inl (List.all_eq_true.mp h c hc)

theorem isShown_of_isDigit {c : Char} (h : Pattern.isDigit c = true) : isShown c = true :=
  forall_isDigit (P := fun c => isShown c = true) (by decide) h

/-! ## 2. Doubles -/

/-- A decimal is laid out with its digits, more digits, a point, an exponent mark and a sign. -/
theorem isShown_layout (style : DoubleStyle) {d : Decimal}
    (h : ∀ c ∈ d.digits, isShown c = true) : ∀ c ∈ d.layout style, isShown c = true := by
  have htake : ∀ n, ∀ c ∈ d.digits.take n, isShown c = true := fun n c hc =>
    h c (List.mem_of_mem_take hc)
  have hdrop : ∀ n, ∀ c ∈ d.digits.drop n, isShown c = true := fun n c hc =>
    h c (List.mem_of_mem_drop hc)
  have hzeros : ∀ n, ∀ c ∈ List.replicate n '0', isShown c = true := fun n c hc => by
    rw [List.eq_of_mem_replicate hc]
    decide
  have hpoint : ∀ c ∈ ".0".toList, isShown c = true := List.all_eq_true.mp (by decide)
  have hfront : ∀ c ∈ "0.".toList, isShown c = true := List.all_eq_true.mp (by decide)
  have hmark : ∀ negative : Prop, [Decidable negative] →
      ∀ c ∈ ['e', if negative then '-' else '+'], isShown c = true := by
    intro negative _
    split <;> exact List.all_eq_true.mp (by decide)
  rw [Decimal.layout]
  split
  · split
    · simp only [List.forall_mem_append]
      exact ⟨⟨hfront, hzeros _⟩, h⟩
    · dsimp only
      split
      · simp only [List.forall_mem_append]
        exact ⟨⟨h, hzeros _⟩, hpoint⟩
      · simp only [List.forall_mem_append, List.forall_mem_singleton]
        exact ⟨⟨htake _, by decide⟩, hdrop _⟩
  · have hfraction : ∀ c ∈ (if (d.digits.drop 1).isEmpty then
        (if style.pointBeforeExponent then ".0".toList else []) else '.' :: d.digits.drop 1),
        isShown c = true := by
      split
      · split
        · exact hpoint
        · exact List.forall_mem_nil _
      · exact List.forall_mem_cons.mpr ⟨by decide, hdrop 1⟩
    simp only [List.forall_mem_append]
    exact ⟨⟨⟨htake 1, hfraction⟩, hmark _⟩, fun c hc =>
      isShown_of_isDigit (isDigit_of_mem_paddedDigits hc)⟩

/-- A double is written with shown characters if the names of the special values are. -/
theorem isShown_double {style : DoubleStyle} (hnan : style.notANumber.all isShown = true)
    (hinfinity : style.infinity.all isShown = true) (d : Double) :
    ∀ c ∈ d.written style, isShown c = true := by
  have hsign : ∀ negative : Bool, ∀ c ∈ (if negative then ['-'] else []), isShown c = true := by
    intro negative
    cases negative <;> exact List.all_eq_true.mp (by decide)
  cases d with
  | nan _ => exact List.all_eq_true.mp hnan
  | infinite negative =>
    exact List.forall_mem_append.mpr ⟨hsign negative, List.all_eq_true.mp hinfinity⟩
  | finite negative m e =>
    refine List.forall_mem_append.mpr ⟨hsign negative, ?_⟩
    split
    · exact List.all_eq_true.mp (by decide)
    · exact isShown_layout style fun c hc => isShown_of_isDigit (isDigit_of_mem_shortest c hc)

/-- What is written for an atom other than a string and bytes. -/
theorem isShown_plainForm (a : Atom) : ∀ c ∈ plainForm a, isShown c = true := by
  have hform : ∀ {a : Atom}, HasForm a → ∀ c ∈ plainForm a, isShown c = true := fun h =>
    (fitsPlain_iff.mp (fitsPlain_plainForm h)).1
  cases a with
  | float d => exact isShown_double (by decide) (by decide) d
  | str _ => exact List.forall_mem_nil _
  | bytes _ => exact List.forall_mem_nil _
  | null => exact hform (a := .null) trivial
  | bool b => exact hform (a := .bool b) trivial
  | int i => exact hform (a := .int i) trivial
  | day d => exact hform (a := .day d) trivial
  | moment m => exact hform (a := .moment m) trivial

/-! ## 3. Pieces -/

namespace Piece

/-- Wherever it starts, a piece is written with legible characters. -/
def Clear (a : Piece) : Prop :=
  ∀ p, ∀ c ∈ (a p).1, Legible c

namespace Clear

variable {a b : Piece}

theorem nothing : Clear Piece.nothing :=
  fun _ _ hc => absurd hc List.not_mem_nil

theorem andThen (ha : a.Clear) (hb : b.Clear) : Clear (a.andThen b) := by
  intro p
  rw [andThen_apply]
  exact List.forall_mem_append.mpr ⟨ha p, hb _⟩

theorem withPen {f : Pen → Piece} (h : ∀ p, Clear (f p)) : Clear (Piece.withPen f) :=
  fun p => h p p

end Clear

theorem clear_indent (n : Nat) : Clear (indent n) := by
  intro p
  rcases indent_cases n p with ⟨-, h⟩ | ⟨-, h⟩ | h
  · rw [h]
    intro c hc
    rw [List.eq_of_mem_replicate hc]
    exact legible_space
  · rw [h]
    exact List.forall_mem_nil _
  · rw [h]
    exact fun c hc => (printed_newLine n c hc).legible

theorem clear_indicator {s : List Char} (h : ∀ c ∈ s, Legible c) (needsSpace spaced block : Bool) :
    Clear (indicator s needsSpace spaced block) := by
  intro p
  rw [indicator]
  dsimp only
  split
  · exact h
  · exact List.forall_mem_cons.mpr ⟨legible_space, h⟩

theorem clear_word {s : List Char} (h : ∀ c ∈ s, Legible c) : Clear (word s) :=
  clear_indicator h true false false

/-! ## 4. Scalars -/

theorem clear_plain (folds : Bool) (n : Nat) {cs : List Char} (h : ∀ c ∈ cs, isShown c = true) :
    Clear (plainPiece folds n cs) := by
  intro p
  refine List.forall_mem_append.mpr ⟨?_, fun c hc => (printed_plainFrom h c hc).legible⟩
  split
  · exact List.forall_mem_nil _
  · exact List.forall_mem_singleton.mpr legible_space

/-- A text between quotes. -/
theorem clear_quoted {c : Char} (hc : Legible c) (text : Nat → List Char × Nat)
    (h : ∀ column, ∀ c ∈ (text column).1, Legible c) :
    Clear ((word [c]).andThen (Piece.andThen
      (fun p => ((text p.column).1, { p with column := (text p.column).2 }))
      (indicator [c] false false false))) := by
  have hmark : ∀ d ∈ [c], Legible d := List.forall_mem_singleton.mpr hc
  have htext : Clear fun p => ((text p.column).1, { p with column := (text p.column).2 }) :=
    fun p => h p.column
  exact (clear_word hmark).andThen (htext.andThen (clear_indicator hmark _ _ _))

theorem clear_single (folds : Bool) (n : Nat) {cs : List Char} (h : ∀ c ∈ cs, Legible c) :
    Clear (singlePiece folds n cs) := by
  have hquote : Legible '\'' := .inl (by decide)
  exact clear_quoted hquote (fun column => singleFrom folds n false [] column cs) fun _ =>
    forall_singleFrom legible_space legible_feed hquote
      (List.forall_mem_nil _) h

/-- Every text can stand between double quotes. -/
theorem clear_double (folds : Bool) (n : Nat) (t : Text) : Clear (doublePiece folds n t) := by
  have hquote : Legible '"' := .inl (by decide)
  exact clear_quoted hquote (fun column => doubleFrom folds n true true column t) fun _ c hc =>
    (printed_doubleFrom folds n t c hc).legible

theorem clear_bytes (n : Nat) (bs : List UInt8) : Clear (bytesPiece n bs) := by
  have htag : Clear (word Tag.binary.short) := clear_word (legible_of_all (by decide))
  have hbar : Clear (word ['|']) := clear_word (legible_of_all (by decide))
  have hblock : Clear fun _ => (literalLines n (Base64.encode bs) ++ ['\n'], {}) := by
    intro _
    rw [literalLines_encode]
    refine List.forall_mem_append.mpr ⟨fun c hc => ?_, List.forall_mem_singleton.mpr legible_feed⟩
    exact (printed_indented (fun l hl => isLine_of_mem_byteLines hl) c hc).legible
  rw [bytesPiece]
  split
  · exact htag.andThen (clear_double true n [])
  · exact (htag.andThen hbar).andThen hblock

theorem clear_atom (spot : Spot) (indent : Option Nat) (a : Atom) :
    Clear (atomPiece spot indent a) := by
  by_cases hstr : ∃ t, a = .str t
  · obtain ⟨t, rfl⟩ := hstr
    rw [atomPiece]
    rcases ofText_cases t with ⟨cs, -, hstyle, hfits⟩ | ⟨cs, -, hstyle, hfits⟩ | hstyle
    · rw [hstyle]
      exact clear_plain _ _ (fitsPlain_iff.mp (Bool.and_eq_true_iff.mp hfits).1).1
    · rw [hstyle]
      have hchars := List.all_eq_true.mp (Bool.and_eq_true_iff.mp hfits).1
      exact clear_single _ _ fun c hc => Bool.or_eq_true_iff.mp (hchars c hc)
    · rw [hstyle]
      exact clear_double _ _ t
  · by_cases hbytes : ∃ bs, a = .bytes bs
    · obtain ⟨bs, rfl⟩ := hbytes
      exact clear_bytes _ bs
    · rw [not_exists] at hstr hbytes
      rw [atomPiece_of_form spot indent hstr hbytes]
      exact clear_plain _ _ (isShown_plainForm a)

/-! ## 5. Nodes -/

theorem clear_name {mark : Char} (hmark : Legible mark) (n : Nat) :
    Clear (word (mark :: anchorName n)) := by
  refine clear_word (List.forall_mem_cons.mpr ⟨hmark, ?_⟩)
  refine List.forall_mem_cons.mpr ⟨.inl (by decide), List.forall_mem_cons.mpr ⟨.inl (by decide), ?_⟩⟩
  exact fun c hc => .inl (isShown_of_isDigit (isDigit_of_mem_paddedDigits hc))

theorem clear_anchor (anchor : Option Nat) : Clear (anchorPiece anchor) := by
  cases anchor with
  | none => exact .nothing
  | some n => exact clear_name (.inl (by decide)) n

/-- Brackets if there is nothing to write, else a block. -/
theorem clear_unless_empty {α : Type} {items : List α} {opening closing : Char} {block : Piece}
    (hopening : isShown opening = true) (hclosing : isShown closing = true) (h : block.Clear) :
    Clear (if items.isEmpty then bracketsPiece opening closing else block) := by
  split
  · exact (clear_indicator (List.forall_mem_singleton.mpr (.inl hopening)) _ _ _).andThen
      (clear_indicator (List.forall_mem_singleton.mpr (.inl hclosing)) _ _ _)
  · exact h

/-- A line of a collection starts with its indentation and a mark. -/
theorem clear_mark (n : Nat) {c : Char} (hc : isShown c = true) :
    Clear ((indent n).andThen (indicator [c] true false true)) :=
  (clear_indent n).andThen (clear_indicator (List.forall_mem_singleton.mpr (.inl hc)) _ _ _)

/-- A key with its mark, and the colon behind it. -/
theorem clear_keyAndColon (n : Nat) {k : Written}
    (h : ∀ spot, Clear (nodePiece spot (some n) k)) :
    Clear ((((keyPiece (isShortKey k) n).andThen
      (nodePiece (if isShortKey k then .key else .part) (some n) k)).andThen
      (colonPiece (isShortKey k) n))) := by
  cases isShortKey k with
  | true =>
    have hcolon : Clear (indicator [':'] false false false) :=
      clear_indicator (legible_of_all (by decide)) _ _ _
    exact ((clear_indent n).andThen (h .key)).andThen hcolon
  | false => exact ((clear_mark n (by decide)).andThen (h .part)).andThen (clear_mark n (by decide))

mutual

/-- **A node is written with legible characters**, wherever it is written. -/
theorem clear_node (spot : Spot) (indent : Option Nat) : ∀ t : Written,
    Clear (nodePiece spot indent t)
  | .back n => by
      rw [nodePiece]
      exact clear_name (.inl (by decide)) n
  | .atom anchor a => by
      rw [nodePiece]
      exact (clear_anchor anchor).andThen (clear_atom spot indent a)
  | .list anchor items => by
      rw [nodePiece]
      exact (clear_anchor anchor).andThen <| clear_unless_empty (by decide) (by decide) <|
        .withPen fun p => clear_entries (sequenceIndent spot indent p) items
  | .tuple anchor items => by
      rw [nodePiece]
      exact (clear_anchor anchor).andThen <| clear_unless_empty (by decide) (by decide) <|
        .withPen fun p => clear_entries (sequenceIndent spot indent p) items
  | .set anchor items => by
      have htag : Clear (word Tag.set.short) := clear_word (legible_of_all (by decide))
      rw [nodePiece]
      exact ((clear_anchor anchor).andThen htag).andThen <|
        clear_unless_empty (by decide) (by decide) (clear_elements (blockIndent indent) items)
  | .map anchor entries => by
      rw [nodePiece]
      exact (clear_anchor anchor).andThen <|
        clear_unless_empty (by decide) (by decide) (clear_pairs (blockIndent indent) entries)

theorem clear_entries (n : Nat) : ∀ ts : List Written, Clear (entriesPiece n ts)
  | [] => .nothing
  | t :: ts => by
      rw [entriesPiece]
      exact ((clear_mark n (by decide)).andThen (clear_node .entry (some n) t)).andThen
        (clear_entries n ts)

theorem clear_elements (n : Nat) : ∀ ts : List Written, Clear (elementsPiece n ts)
  | [] => .nothing
  | t :: ts => by
      rw [elementsPiece]
      exact ((clear_keyAndColon n fun spot => clear_node spot (some n) t).andThen
        (clear_atom .part (some n) .null)).andThen (clear_elements n ts)

theorem clear_pairs (n : Nat) : ∀ es : List (Written × Written), Clear (pairsPiece n es)
  | [] => .nothing
  | (k, v) :: es => by
      rw [pairsPiece]
      exact ((clear_keyAndColon n fun spot => clear_node spot (some n) k).andThen
        (clear_node .part (some n) v)).andThen (clear_pairs n es)

end

end Piece

/-! ## 6. Documents -/

/-- **A document is written with legible characters**, whatever the record holds. -/
theorem legible_print (t : Written) : ∀ c ∈ print t, Legible c := by
  have hstart : Piece.Clear (Piece.indicator "---".toList true false false) :=
    Piece.clear_indicator (legible_of_all (by decide)) _ _ _
  have hstop : Piece.Clear (if isOpenEnded t then
      (Piece.indicator "...".toList true false false).andThen (Piece.indent 0)
        else Piece.nothing) := by
    split
    · exact (Piece.clear_indicator (legible_of_all (by decide)) _ _ _).andThen (Piece.clear_indent 0)
    · exact .nothing
  exact (((hstart.andThen (Piece.clear_node .root none t)).andThen (Piece.clear_indent 0)).andThen
    hstop) {}

end Conform.Markup

namespace Conform

theorem Graph.legible_dump {g : Graph} {r : Ref} {cs : List Char} (h : g.dump r = .ok cs) :
    ∀ c ∈ cs, Markup.Legible c := by
  obtain ⟨t, rfl⟩ := exists_print_of_dump h
  exact Markup.legible_print t

end Conform
