import Conform.Proofs.Markup.Places
import Conform.Proofs.Markup.Progress

/-!
# Steps of the reader

Reading one token starts by going to it: what means nothing is skipped, candidates that are too far
back are given up, and the block collections that the next token leaves are closed. `front` is the
layout after that. One layout leads to another if reading goes on from there with enough steps left
(`Leads`); it arrives somewhere if it leads to a layout whose front is there (`Arrives`). Both are
put together from single steps, so the fuel of the reader is dealt with here and nowhere else.
-/

namespace Conform.Markup.Layout

/-! ## 1. In front of the next token -/

/-- The layout in front of its next token. -/
def front (s : Layout) : Except Fault Layout := do
  let s ← s.dropStale
  let s ← s.toNextToken.dropStale
  pure (s.unwind s.cursor.place.column)

/-- Going to the next token skips characters and takes none. -/
theorem length_front {s q : Layout} (h : s.front = .ok q) :
    q.cursor.rest.length ≤ s.cursor.rest.length := by
  obtain ⟨s₁, h₁, h⟩ := bind_eq_ok.mp h
  obtain ⟨s₂, h₂, h⟩ := bind_eq_ok.mp h
  cases h
  rw [cursor_unwind, cursor_dropStale h₂, ← cursor_dropStale h₁]
  exact (rest_toNextToken_suffix s₁).length_le

/-! ## 2. Runs -/

/-- Reading goes on from another layout, with the steps that it may need there. -/
def Leads (s s' : Layout) : Prop :=
  ∀ n, s.cursor.rest.length < n → ∃ m, s'.cursor.rest.length < m ∧ tokensFrom n s = tokensFrom m s'

theorem Leads.refl (s : Layout) : s.Leads s := fun n hn => ⟨n, hn, rfl⟩

theorem Leads.trans {s s' s'' : Layout} (h : s.Leads s') (h' : s'.Leads s'') : s.Leads s'' :=
  fun n hn => by
    obtain ⟨m, hm, heq⟩ := h n hn
    obtain ⟨k, hk, heq'⟩ := h' m hm
    exact ⟨k, hk, heq.trans heq'⟩

/-- The step that a layout takes from its front. -/
theorem tokensFrom_succ {s q s' : Layout} (hfront : s.front = .ok q) (htake : q.takeToken = .ok s')
    (n : Nat) : tokensFrom (n + 1) s =
      if s'.reversed.head? = some .streamEnd then ⟨s'.reversed.reverse, none⟩
      else tokensFrom n s' := by
  obtain ⟨s₁, h₁, hfront⟩ := bind_eq_ok.mp hfront
  obtain ⟨s₂, h₂, hfront⟩ := bind_eq_ok.mp hfront
  cases hfront
  have hstep : s₁.step = .ok s' := by
    rw [step, h₂]
    exact htake
  simp only [tokensFrom, h₁, hstep]
  split
  · rename_i hend
    rw [hend, List.head?_cons, if_pos rfl]
  · rename_i hmore
    rw [if_neg fun hend => ?_]
    obtain ⟨tokens, htokens⟩ := List.head?_eq_some_iff.mp hend
    exact hmore tokens htokens

/-- A token that is not the last one leads on. -/
theorem Leads.of_take {s q s' : Layout} (hfront : s.front = .ok q) (htake : q.takeToken = .ok s')
    (hmore : s'.reversed.head? ≠ some .streamEnd)
    (hlength : s'.cursor.rest.length < q.cursor.rest.length) : s.Leads s' := by
  intro n hn
  have hle := length_front hfront
  obtain ⟨m, rfl⟩ : ∃ m, n = m + 1 := ⟨n - 1, by omega⟩
  refine ⟨m, by omega, ?_⟩
  rw [tokensFrom_succ hfront htake, if_neg hmore]

/-- The last token ends reading. -/
theorem tokensFrom_of_end {s q s' : Layout} {tokens : List Token} {n : Nat}
    (hn : s.cursor.rest.length < n) (hfront : s.front = .ok q) (htake : q.takeToken = .ok s')
    (hend : s'.reversed = .streamEnd :: tokens) :
    tokensFrom n s = ⟨(Token.streamEnd :: tokens).reverse, none⟩ := by
  obtain ⟨m, rfl⟩ : ∃ m, n = m + 1 := ⟨n - 1, by omega⟩
  rw [tokensFrom_succ hfront htake, hend, List.head?_cons, if_pos rfl]

/-! ## 3. Layouts in block context -/

/-- A layout in block context, with the tokens so far, newest first. -/
def block (c : Cursor) (tokens : List Token) (columns : List Nat) (allowed : Bool)
    (candidate : Option Candidate) : Layout :=
  { cursor := c
    reversed := tokens
    count := tokens.length
    columns
    candidates := [candidate]
    keyAllowed := allowed }

/-- The column of the innermost block collection. -/
def innermost (columns : List Nat) : Int :=
  match columns with
  | [] => -1
  | c :: _ => c

section Block

variable {c : Cursor} {tokens : List Token} {columns : List Nat} {allowed : Bool}
  {candidate : Option Candidate}

@[simp] theorem indent_block :
    (block c tokens columns allowed candidate).indent = innermost columns := rfl

@[simp] theorem inFlow_block : (block c tokens columns allowed candidate).inFlow = false := rfl

@[simp] theorem candidate?_block :
    (block c tokens columns allowed candidate).candidate? = candidate := rfl

@[simp] theorem cursor_block : (block c tokens columns allowed candidate).cursor = c := rfl

@[simp] theorem reversed_block : (block c tokens columns allowed candidate).reversed = tokens := rfl

@[simp] theorem keyAllowed_block :
    (block c tokens columns allowed candidate).keyAllowed = allowed := rfl

theorem setCandidate_block (k : Option Candidate) :
    (block c tokens columns allowed candidate).setCandidate k = block c tokens columns allowed k :=
  rfl

end Block

/-! ## 4. Closing collections -/

/-- The tokens after those block collections are closed that are further in than a column. -/
def closed (column : Int) (columns : List Nat) (tokens : List Token) : List Token :=
  List.replicate (closeTo column columns).1 .blockEnd ++ tokens

/-- The columns of the block collections that stay open at a column. -/
def kept (column : Int) (columns : List Nat) : List Nat :=
  (closeTo column columns).2

theorem closeTo_cons_of_lt {column : Int} {c : Nat} (h : column < c) (columns : List Nat) :
    closeTo column (c :: columns) = ((closeTo column columns).1 + 1, (closeTo column columns).2) := by
  rw [closeTo, if_pos h]

theorem closed_cons_of_lt {column : Int} {c : Nat} (h : column < c) (columns : List Nat)
    (tokens : List Token) :
    closed column (c :: columns) tokens = closed column columns (.blockEnd :: tokens) := by
  rw [closed, closeTo_cons_of_lt h, closed, List.replicate_succ', List.append_assoc]
  rfl

theorem kept_cons_of_lt {column : Int} {c : Nat} (h : column < c) (columns : List Nat) :
    kept column (c :: columns) = kept column columns := by
  rw [kept, closeTo_cons_of_lt h, kept]

theorem closeTo_of_le {column : Int} {columns : List Nat} (h : innermost columns ≤ column) :
    closeTo column columns = (0, columns) := by
  cases columns with
  | nil => rfl
  | cons c columns =>
    rw [closeTo, if_neg]
    exact Int.not_lt.mpr h

/-- Nothing is closed at a column that is not further out. -/
theorem closed_of_le {column : Int} {columns : List Nat} (h : innermost columns ≤ column)
    (tokens : List Token) : closed column columns tokens = tokens := by
  rw [closed, closeTo_of_le h]
  rfl

theorem kept_of_le {column : Int} {columns : List Nat} (h : innermost columns ≤ column) :
    kept column columns = columns := by
  rw [kept, closeTo_of_le h]

theorem unwind_block (column : Int) (c : Cursor) (tokens : List Token) (columns : List Nat)
    (allowed : Bool) (candidate : Option Candidate) :
    (block c tokens columns allowed candidate).unwind column =
      block c (closed column columns tokens) (kept column columns) allowed candidate := by
  have hcount : tokens.length + (closeTo column columns).1 =
      (closed column columns tokens).length := by
    simp [closed, Nat.add_comm]
  rw [unwind, inFlow_block, if_neg Bool.false_ne_true, block, block, ← hcount]
  rfl

/-! ## 5. Fronts of block layouts -/

theorem dropStale_block {c : Cursor} {tokens : List Token} {columns : List Nat} {allowed : Bool}
    {candidate : Option Candidate}
    (h : ∀ k ∈ candidate, isStale c.place k = true → k.required = false) :
    (block c tokens columns allowed candidate).dropStale =
      .ok (block c tokens columns allowed (candidate.filter fun k => !isStale c.place k)) := by
  rw [dropStale, if_neg]
  · rfl
  · cases candidate with
    | none => simp [block]
    | some k =>
      have hk := h k rfl
      cases hs : isStale c.place k with
      | false => simp [block, hs]
      | true => simp [block, hk hs]

/-- The front of a layout whose candidate, if it has one, is not on the line of the next token and
    can be given up. -/
theorem front_block {c c' : Cursor} {tokens : List Token} {columns : List Nat}
    {allowed broken : Bool} {candidate : Option Candidate}
    (hskip : skipTrivia false false c.rest c.place = (broken, c'))
    (hk : ∀ k ∈ candidate, k.required = false ∧ k.place.line ≠ c'.place.line) :
    (block c tokens columns allowed candidate).front =
      .ok (block c' (closed c'.place.column columns tokens) (kept c'.place.column columns)
        (allowed || broken) none) := by
  have hfirst : ∀ k ∈ candidate, isStale c.place k = true → k.required = false :=
    fun k hmem _ => (hk k hmem).1
  have hmore : ∀ k ∈ candidate.filter fun k => !isStale c.place k,
      k.required = false ∧ k.place.line ≠ c'.place.line := fun k hmem =>
    hk k (Option.filter_eq_some_iff.mp hmem).1
  have hnone : (candidate.filter fun k => !isStale c.place k).filter
      (fun k => !isStale c'.place k) = none := by
    cases hc : candidate.filter fun k => !isStale c.place k with
    | none => rfl
    | some k =>
      have hline := (hmore k (by rw [hc]; rfl)).2
      simp [isStale, hline]
  have hnext : (block c tokens columns allowed
      (candidate.filter fun k => !isStale c.place k)).toNextToken =
      block c' tokens columns (allowed || broken)
        (candidate.filter fun k => !isStale c.place k) := by
    rw [toNextToken, cursor_block, hskip]
    simp [block, inFlow]
  rw [front, dropStale_block hfirst, ok_bind, hnext,
    dropStale_block fun k hmem _ => (hmore k hmem).1, ok_bind, hnone, unwind_block]
  rfl

/-- On the next line, which can leave collections. -/
theorem front_newLine {rest : List Char} {j : Nat} {p : Place} {tokens : List Token}
    {columns : List Nat} {allowed : Bool} (hsolid : Solid rest) :
    (block ⟨newLine j ++ rest, p⟩ tokens columns allowed none).front =
      .ok (block ⟨rest, p.after (newLine j)⟩ (closed j columns tokens) (kept j columns) true
        none) := by
  have hskip := skipTrivia_newLine hsolid false j p
  rw [front_block (c := ⟨newLine j ++ rest, p⟩) hskip (by simp)]
  simp only [Place.column_after_newLine, Bool.or_true]

/-- The front of a layout that stands at its next token, within reach of its candidate. -/
theorem front_block_of_solid {c : Cursor} {tokens : List Token} {columns : List Nat}
    {allowed : Bool} {candidate : Option Candidate} (hsolid : Solid c.rest)
    (hk : ∀ k ∈ candidate, isStale c.place k = false) :
    (block c tokens columns allowed candidate).front =
      .ok (block c (closed c.place.column columns tokens) (kept c.place.column columns)
        allowed candidate) := by
  have hstale : ∀ k ∈ candidate, isStale c.place k = true → k.required = false := by
    intro k hmem h
    rw [hk k hmem] at h
    cases h
  have hkeep : (candidate.filter fun k => !isStale c.place k) = candidate := by
    cases candidate with
    | none => rfl
    | some k => simp [hk k rfl]
  have hnext : (block c tokens columns allowed candidate).toNextToken =
      block c tokens columns allowed candidate := by
    rw [toNextToken, cursor_block, skipTrivia_solid hsolid]
    simp [block]
  rw [front, dropStale_block hstale, hkeep, ok_bind, hnext, dropStale_block hstale, hkeep, ok_bind,
    unwind_block]
  rfl

/-- Behind a space on the line of a mark, within reach of the candidate. -/
theorem front_space {rest : List Char} {p : Place} {tokens : List Token} {columns : List Nat}
    {allowed : Bool} {candidate : Option Candidate} (hsolid : Solid rest)
    (hp : innermost columns ≤ p.column)
    (hk : ∀ k ∈ candidate, isStale p k = false ∧ isStale (p.next ' ') k = false) :
    (block ⟨' ' :: rest, p⟩ tokens columns allowed candidate).front =
      .ok (block ⟨rest, p.next ' '⟩ tokens columns allowed candidate) := by
  have hcolumn : innermost columns ≤ ((p.next ' ').column : Int) := by
    rw [Place.next_of_inline Place.isInline_space]
    exact Int.le_trans hp (Int.ofNat_le.mpr (Nat.le_succ _))
  have hkeep : ∀ q : Place, (∀ k ∈ candidate, isStale q k = false) →
      (candidate.filter fun k => !isStale q k) = candidate := by
    intro q hq
    cases candidate with
    | none => rfl
    | some k => simp [hq k rfl]
  have hnext : (block ⟨' ' :: rest, p⟩ tokens columns allowed candidate).toNextToken =
      block ⟨rest, p.next ' '⟩ tokens columns allowed candidate := by
    have hskip := skipTrivia_spaces hsolid false 1 p
    rw [List.replicate_one, List.singleton_append] at hskip
    rw [toNextToken, cursor_block, hskip]
    simp [block]
  rw [front, dropStale_block, hkeep p fun k h => (hk k h).1, ok_bind, hnext, dropStale_block,
    hkeep (p.next ' ') fun k h => (hk k h).2, ok_bind, unwind_block]
  · rw [cursor_block, closed_of_le hcolumn, kept_of_le hcolumn]
    rfl
  · intro k h hs
    rw [(hk k h).2] at hs
    cases hs
  · intro k h hs
    rw [(hk k h).1] at hs
    cases hs

/-! ## 6. Arriving -/

/-- Reading comes to a cursor in front of a token, with some tokens read in block collections of
    which those are closed that the next token leaves. -/
def Arrives (s : Layout) (c : Cursor) (columns : List Nat) (tokens : List Token) : Prop :=
  ∃ s', s.Leads s' ∧ s'.front =
    .ok (block c (closed c.place.column columns tokens) (kept c.place.column columns) true none)

theorem Leads.arrives {s s' : Layout} {c : Cursor} {columns : List Nat} {tokens : List Token}
    (h : s.Leads s') (h' : s'.Arrives c columns tokens) : s.Arrives c columns tokens := by
  obtain ⟨s'', hleads, hfront⟩ := h'
  exact ⟨s'', h.trans hleads, hfront⟩

/-- A collection that the next token leaves is closed by it. -/
theorem Arrives.close {s : Layout} {c : Cursor} {column : Nat} {columns : List Nat}
    {tokens : List Token} (h : s.Arrives c (column :: columns) tokens)
    (hlt : c.place.column < column) : s.Arrives c columns (.blockEnd :: tokens) := by
  obtain ⟨s', hleads, hfront⟩ := h
  have hlt' : (c.place.column : Int) < column := Int.ofNat_lt.mpr hlt
  refine ⟨s', hleads, ?_⟩
  rw [← closed_cons_of_lt hlt', ← kept_cons_of_lt hlt']
  exact hfront

end Conform.Markup.Layout
