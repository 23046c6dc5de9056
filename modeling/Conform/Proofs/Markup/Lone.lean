import Conform.Markup.Load
import Conform.Proofs.Markup.Scalar.Single
import Conform.Proofs.Markup.Shown
import Conform.Proofs.Markup.Tokens

/-!
# Documents that are one scalar

A document of one line can be a single scalar, as it stands or between single quotes. This file says
which lines are plain scalars (`plainLine_iff`), and what such a document is: one token, one node,
and the value of the text under the tag that it is taken for (`load_plainLine`); between quotes it
is the text itself (`load_singleQuoted`).
-/

namespace Conform.Markup

/-! ## 1. Lines that are plain scalars -/

/-- The characters at which no word of a line goes on: tabs, and everything that ends a line. -/
def lineEnders : List Char :=
  ['\t', '\n', '\r', '\x85', '\u2028', '\u2029']

/-- The characters may stand within a line. -/
def WithinLine (w : List Char) : Prop :=
  ∀ c ∈ w, isAllowed c = true ∧ c ∉ lineEnders

/-- A plain scalar goes on over the characters: no colon ends a word, no hash sign starts one, and
    the last one is no space. -/
structure GoesOn (w : List Char) : Prop where
  within : WithinLine w
  colon : ¬ [':', ' '] <:+: w ∧ ¬ [':'] <:+ w
  comment : ¬ [' ', '#'] <:+: w
  last : ¬ [' '] <:+ w

/-- A line that is one plain scalar from its first character to its last. It starts with no
    indicator, unless that is part of a word, and with no marker of a document. -/
structure PlainLine (w : List Char) : Prop extends GoesOn w where
  first : ∃ c rest, w = c :: rest ∧ c ≠ ' ' ∧ c ≠ '\uFEFF' ∧
    (c ∈ indicators → (c = '-' ∨ c = '?' ∨ c = ':') ∧ ∃ d more, rest = d :: more ∧ d ≠ ' ')
  marker : startsMarker w = false

/-- A line between single quotes. -/
def singleQuoted (w : List Char) : List Char :=
  '\'' :: (w.flatMap singleOwn ++ ['\''])

theorem ne_of_not_mem_lineEnders {c : Char} (h : c ∉ lineEnders) :
    isBreak c = false ∧ c ≠ '\t' := by
  simp only [lineEnders, List.mem_cons, List.not_mem_nil, or_false, not_or] at h
  obtain ⟨htab, hfeed, hreturn, hnext, hline, hparagraph⟩ := h
  exact ⟨by simp [isBreak, hfeed, hreturn, hnext, hline, hparagraph], htab⟩

theorem isSource_of_within {w : List Char} (h : WithinLine w) : isSource w = true :=
  List.all_eq_true.mpr fun c hc => (h c hc).1

theorem WithinLine.singleQuoted {w : List Char} (h : WithinLine w) :
    WithinLine (singleQuoted w) := by
  have hquote : isAllowed '\'' = true ∧ '\'' ∉ lineEnders := by decide
  intro c hc
  simp only [Markup.singleQuoted, List.mem_cons, List.mem_append, List.mem_flatMap,
    List.not_mem_nil, or_false] at hc
  rcases hc with rfl | ⟨d, hd, hc⟩ | rfl
  · exact hquote
  · unfold singleOwn at hc
    split at hc
    · have hc' : c = '\'' := by simpa using hc
      rw [hc']
      exact hquote
    · rw [List.mem_singleton.mp hc]
      exact h d hd
  · exact hquote

/-! ## 2. Reading a line -/

/-- A gap within a line. -/
theorem Gap.folded_addSpacing {gap : Gap} (h : gap.hasBreak = false) (c : Char) :
    (gap.addSpacing c).folded = gap.folded ++ [c] ∧ (gap.addSpacing c).hasBreak = false := by
  cases gap with
  | none => exact ⟨rfl, rfl⟩
  | spacing cs => exact ⟨by simp [addSpacing, folded], rfl⟩
  | breaks first cs => cases h

theorem GoesOn.tail {c : Char} {w : List Char} (h : GoesOn (c :: w)) : GoesOn w where
  within := (List.forall_mem_cons.mp h.within).2
  colon := ⟨fun hin => h.colon.1 (hin.trans (List.suffix_cons c w).isInfix),
    fun hend => h.colon.2 (hend.trans (List.suffix_cons c w))⟩
  comment := fun hin => h.comment (hin.trans (List.suffix_cons c w).isInfix)
  last := fun hend => h.last (hend.trans (List.suffix_cons c w))

/-- Behind a colon a word goes on. -/
theorem GoesOn.endsWord {w : List Char} (h : GoesOn (':' :: w)) : endsWord w = false := by
  cases w with
  | nil => exact absurd (List.suffix_refl [':']) h.colon.2
  | cons d w =>
    have hd := ne_of_not_mem_lineEnders (h.within d (by simp)).2
    have hspace : d ≠ ' ' := by
      rintro rfl
      exact h.colon.1 (List.prefix_append [':', ' '] w).isInfix
    simp [Markup.endsWord, isSpacing, hspace, hd.1, hd.2]

/-- Behind a space there is a word, and no comment. -/
theorem GoesOn.behind_space {w : List Char} (h : GoesOn (' ' :: w)) :
    w ≠ [] ∧ w.head? ≠ some '#' := by
  constructor
  · rintro rfl
    exact h.last (List.suffix_refl [' '])
  · intro hhead
    obtain ⟨more, rfl⟩ := List.head?_eq_some_iff.mp hhead
    exact h.comment (List.prefix_append [' ', '#'] more).isInfix

/-- Within a line a plain scalar is read to its end. `gap` is what has been read since the last
    word. -/
theorem readPlainFrom_line : ∀ {w : List Char} {gap : Gap} {reversed : List Char} {p : Place},
    GoesOn w → gap.hasBreak = false → (gap ≠ .none → w ≠ [] ∧ w.head? ≠ some '#') →
    readPlainFrom false 0 gap reversed w p =
      ⟨reversed.reverse ++ gap.folded ++ w, false, ⟨[], p.after w⟩⟩
  | [], gap, reversed, p => fun _ _ hgap => by
      have hnone : gap = .none := by
        by_contra hne
        exact (hgap hne).1 rfl
      rw [hnone, readPlainFrom]
      simp [Gap.hasBreak, Gap.folded]
  | c :: w, gap, reversed, p => fun h hbreak hgap => by
      obtain ⟨hcbreak, htab⟩ := ne_of_not_mem_lineEnders (h.within c (by simp)).2
      by_cases hspace : c = ' '
      · subst hspace
        obtain ⟨hfolded, hbreak'⟩ := Gap.folded_addSpacing hbreak ' '
        rw [readPlainFrom, if_pos rfl, readPlainFrom_line h.tail hbreak' fun _ => h.behind_space,
          hfolded]
        simp
      · have hends : endsPlain false c w = false := by
          by_cases hcolon : c = ':'
          · subst hcolon
            simp [endsPlain, h.endsWord]
          · simp [endsPlain, htab, hcolon]
        have hstops : (gap != .none && (c = '#' || (!false && (p.column : Int) < 0))) = false := by
          by_cases hnone : gap = .none
          · simp [hnone]
          · have hhash : c ≠ '#' := fun e => (hgap hnone).2 (by rw [e]; rfl)
            simp [hhash]
        rw [readPlainFrom, if_neg hspace, hcbreak, if_neg Bool.false_ne_true]
        simp only [hends, hstops, Bool.or_false, if_neg Bool.false_ne_true]
        rw [readPlainFrom_line h.tail rfl fun hne => absurd rfl hne]
        simp [Gap.folded]

theorem GoesOn.cons_space {w : List Char} (h : GoesOn w) (hne : w ≠ []) (hhash : w.head? ≠ some '#') :
    GoesOn (' ' :: w) where
  within := List.forall_mem_cons.mpr ⟨by decide, h.within⟩
  colon := by
    refine ⟨fun hin => ?_, fun hend => ?_⟩
    · rcases List.infix_cons_iff.mp hin with hprefix | hin
      · exact absurd (List.cons_prefix_cons.mp hprefix).1 (by decide)
      · exact h.colon.1 hin
    · rcases List.suffix_cons_iff.mp hend with heq | hend
      · exact absurd (List.cons.inj heq).1 (by decide)
      · exact h.colon.2 hend
  comment := fun hin => by
    rcases List.infix_cons_iff.mp hin with hprefix | hin
    · obtain ⟨more, hmore⟩ := (List.cons_prefix_cons.mp hprefix).2
      exact hhash (by rw [← hmore]; rfl)
    · exact h.comment hin
  last := fun hend => by
    rcases List.suffix_cons_iff.mp hend with heq | hend
    · exact hne (List.cons.inj heq).2.symm
    · exact h.last hend

theorem GoesOn.cons {c : Char} {w : List Char} (h : GoesOn w)
    (hc : isAllowed c = true ∧ c ∉ lineEnders) (hspace : c ≠ ' ')
    (hcolon : c = ':' → Markup.endsWord w = false) : GoesOn (c :: w) where
  within := List.forall_mem_cons.mpr ⟨hc, h.within⟩
  colon := by
    refine ⟨fun hin => ?_, fun hend => ?_⟩
    · rcases List.infix_cons_iff.mp hin with hprefix | hin
      · obtain ⟨heq, more, hmore⟩ := List.cons_prefix_cons.mp hprefix
        have hends := hcolon heq.symm
        rw [← hmore] at hends
        cases hends
      · exact h.colon.1 hin
    · rcases List.suffix_cons_iff.mp hend with heq | hend
      · obtain ⟨heq, hnil⟩ := List.cons.inj heq
        have hends := hcolon heq.symm
        rw [← hnil] at hends
        cases hends
      · exact h.colon.2 hend
  comment := fun hin => by
    rcases List.infix_cons_iff.mp hin with hprefix | hin
    · exact hspace (List.cons_prefix_cons.mp hprefix).1.symm
    · exact h.comment hin
  last := fun hend => by
    rcases List.suffix_cons_iff.mp hend with heq | hend
    · exact hspace (List.cons.inj heq).1.symm
    · exact h.last hend

theorem goesOn_nil : GoesOn [] where
  within := fun c hc => absurd hc List.not_mem_nil
  colon := by simp
  comment := by simp
  last := by simp

/-- A plain scalar goes on over what is read to its end. -/
theorem goesOn_of_readPlainFrom : ∀ {w : List Char} {gap : Gap} {reversed : List Char} {p : Place},
    (∀ c ∈ w, isAllowed c = true ∧ (c ∈ lineEnders → c = '\t')) →
    gap.hasBreak = false → (gap ≠ .none → gap.folded ≠ []) →
    (readPlainFrom false 0 gap reversed w p).text = reversed.reverse ++ gap.folded ++ w →
    GoesOn w ∧ (gap ≠ .none → w ≠ [] ∧ w.head? ≠ some '#')
  | [], gap, reversed, p => fun _ _ hgap h => by
      have hfolded : gap.folded = [] := by simpa [readPlainFrom] using h
      exact ⟨goesOn_nil, fun hne => absurd hfolded (hgap hne)⟩
  | c :: w, gap, reversed, p => fun hw hbreak hgap h => by
      obtain ⟨⟨hallowed, hender⟩, htail⟩ := List.forall_mem_cons.mp hw
      by_cases hspace : c = ' '
      · subst hspace
        obtain ⟨hfolded, hbreak'⟩ := Gap.folded_addSpacing hbreak ' '
        rw [readPlainFrom, if_pos rfl] at h
        obtain ⟨hgoes, hbehind⟩ := goesOn_of_readPlainFrom htail hbreak'
          (fun _ hnil => by simp [hfolded] at hnil) (by rw [h, hfolded]; simp)
        have hbehind := hbehind (by cases gap <;> simp [Gap.addSpacing])
        exact ⟨hgoes.cons_space hbehind.1 hbehind.2, fun _ => ⟨by simp, by simp⟩⟩
      · have hcbreak : isBreak c = false := by
          have hbreaks : ∀ {b}, b ∈ lineEnders → b ≠ '\t' → c ≠ b := fun hb htab e =>
            htab (e ▸ hender (e ▸ hb))
          simp [isBreak, hbreaks (b := '\n') (by decide) (by decide),
            hbreaks (b := '\r') (by decide) (by decide),
            hbreaks (b := '\x85') (by decide) (by decide),
            hbreaks (b := '\u2028') (by decide) (by decide),
            hbreaks (b := '\u2029') (by decide) (by decide)]
        rw [readPlainFrom, if_neg hspace, hcbreak, if_neg Bool.false_ne_true] at h
        dsimp only at h
        split at h
        · simp at h
        · rename_i hstops
          obtain ⟨hends, hstops⟩ := Bool.or_eq_false_iff.mp (Bool.eq_false_iff.mpr hstops)
          simp only [endsPlain, Bool.false_and, Bool.or_false, Bool.or_eq_false_iff,
            decide_eq_false_iff_not, Bool.and_eq_false_imp, decide_eq_true_eq] at hends
          obtain ⟨hgoes, -⟩ := goesOn_of_readPlainFrom htail rfl (fun hne => absurd rfl hne)
            (h.trans (by simp [Gap.folded]))
          refine ⟨hgoes.cons ⟨hallowed, fun hmem => hends.1 (hender hmem)⟩ hspace hends.2,
            fun hne => ⟨by simp, ?_⟩⟩
          rintro ⟨⟩
          simp [hne] at hstops

/-- Between single quotes a line is read to the last quote. -/
theorem readSingleFrom_line : ∀ {w : List Char} {gap : Gap} {reversed : Text} {p : Place},
    WithinLine w → gap.hasBreak = false →
    readSingleFrom gap reversed (w.flatMap singleOwn ++ ['\'']) p =
      .ok (reversed.reverse ++ Text.ofChars (gap.folded ++ w),
        ⟨[], p.after (w.flatMap singleOwn ++ ['\''])⟩)
  | [], gap, reversed, p => fun _ _ => by
      rw [List.flatMap_nil, List.nil_append, readSingleFrom, if_pos rfl]
      · simp
      · intro _ _ h
        cases h
  | c :: w, gap, reversed, p => fun h hbreak => by
      obtain ⟨hcbreak, htab⟩ := ne_of_not_mem_lineEnders (h c (by simp)).2
      have hw : WithinLine w := (List.forall_mem_cons.mp h).2
      rw [List.flatMap_cons, List.append_assoc]
      by_cases hquote : c = '\''
      · subst hquote
        have hown : singleOwn '\'' = ['\'', '\''] := rfl
        rw [hown, List.cons_append, List.cons_append, List.nil_append, readSingleFrom,
          readSingleFrom_line hw rfl]
        simp [pushAfter, Text.ofChars, Gap.folded]
      · have hown : singleOwn c = [c] := if_neg hquote
        rw [hown, List.cons_append, List.nil_append]
        by_cases hspace : c = ' '
        · obtain ⟨hfolded, hbreak'⟩ := Gap.folded_addSpacing hbreak c
          rw [readSingleFrom, if_neg hquote, if_pos (by simp [isSpacing, hspace]),
            readSingleFrom_line hw hbreak', hfolded]
          · simp
          · exact fun _ e => absurd e hquote
        · rw [readSingleFrom, if_neg hquote, if_neg (by simp [isSpacing, hspace, htab]), hcbreak,
            if_neg Bool.false_ne_true, readSingleFrom_line hw rfl]
          · simp [pushAfter, Text.ofChars, Gap.folded]
          · exact fun _ e => absurd e hquote

/-! ## 3. The tokens -/

namespace Layout

theorem start_of_ne {c : Char} (h : c ≠ '\uFEFF') (rest : List Char) :
    start (c :: rest) = block ⟨c :: rest, {}⟩ [] [] true none := by
  unfold start
  dsimp only
  split
  · rename_i heq
    exact absurd (Option.some.inj heq) h
  · rfl

/-- At the end of the source a candidate that need not be a key does not matter. -/
theorem front_block_end {p : Place} {tokens : List Token} {allowed : Bool}
    {candidate : Option Candidate} (h : ∀ k ∈ candidate, k.required = false) :
    ∃ candidate', (block ⟨[], p⟩ tokens [] allowed candidate).front =
        .ok (block ⟨[], p⟩ tokens [] allowed candidate') ∧
      ∀ k ∈ candidate', k.required = false := by
  have hfilter : ∀ {candidate : Option Candidate} {q : Candidate → Bool},
      (∀ k ∈ candidate, k.required = false) → ∀ k ∈ candidate.filter q, k.required = false :=
    fun h k hk => h k (Option.filter_eq_some_iff.mp hk).1
  have hnext : ∀ candidate, (block ⟨[], p⟩ tokens [] allowed candidate).toNextToken =
      block ⟨[], p⟩ tokens [] allowed candidate := fun candidate => by
    simp [toNextToken, skipTrivia, block]
  refine ⟨(candidate.filter fun k => !isStale p k).filter fun k => !isStale p k, ?_,
    hfilter (hfilter h)⟩
  rw [front, dropStale_block fun k hk _ => h k hk, ok_bind, hnext,
    dropStale_block fun k hk _ => hfilter h k hk, ok_bind, unwind_block]
  rfl

/-- A source whose first token is a scalar up to the end has no other token. -/
theorem tokensOf_scalar {c : Char} {rest : List Char} {p : Place} {plain : Bool} {t : Text}
    (hmark : c ≠ '\uFEFF') (hsolid : Solid (c :: rest))
    (htake : (block ⟨c :: rest, {}⟩ [] [] true none).takeToken =
      .ok (block ⟨[], p⟩ [.scalar plain t] [] false (noted ⟨c :: rest, {}⟩ [] [] true))) :
    tokensOf (c :: rest) = ⟨[.scalar plain t, .streamEnd], none⟩ := by
  have hfront : (start (c :: rest)).front = .ok (block ⟨c :: rest, {}⟩ [] [] true none) := by
    rw [start_of_ne hmark, front_block_of_solid hsolid (by simp)]
    rfl
  obtain ⟨candidate, hfront', hcandidate⟩ :=
    @front_block_end p [.scalar plain t] false (noted ⟨c :: rest, {}⟩ [] [] true) fun k hk => by
      cases hk
      rfl
  have hend : (block ⟨[], p⟩ [.scalar plain t] [] false candidate).takeToken =
      .ok (block ⟨[], p⟩ [.streamEnd, .scalar plain t] [] false none) := takeEnd_block hcandidate
  rw [tokensOf, tokensFrom_succ hfront htake]
  exact tokensFrom_of_end (Nat.succ_pos _) hfront' hend rfl

end Layout

open Layout

theorem PlainLine.startsPlain {w : List Char} (h : PlainLine w) : startsPlain false w = true := by
  obtain ⟨c, rest, rfl, hspace, -, hindicator⟩ := h.first
  obtain ⟨hbreak, htab⟩ := ne_of_not_mem_lineEnders (h.within c (by simp)).2
  rw [Markup.startsPlain]
  by_cases hmem : c ∈ indicators
  · obtain ⟨hsign, d, more, rfl, hd⟩ := hindicator hmem
    have hd' := ne_of_not_mem_lineEnders (h.within d (by simp)).2
    have hends : endsWord (d :: more) = false := by
      simp [endsWord, isSpacing, hd, hd'.1, hd'.2]
    rw [hends]
    rcases hsign with rfl | rfl | rfl <;> decide
  · have hindicator : indicators.contains c = false := by
      rw [List.contains_eq_mem, decide_eq_false hmem]
    simp only [isSpacing, hspace, htab, hbreak, hindicator]
    rfl

/-- **The lines that are plain scalars** are those at whose start the scanner takes a plain scalar
    and reads it to the end. -/
theorem plainLine_iff {w : List Char} : PlainLine w ↔
    (∀ c ∈ w, isAllowed c = true ∧ (c ∈ lineEnders → c = '\t')) ∧ w.head? ≠ some '\uFEFF' ∧
      startsPlain false w = true ∧ startsMarker w = false ∧
      (readPlain false 0 ⟨w, {}⟩).text = w := by
  constructor
  · intro h
    obtain ⟨c, rest, hw, -, hmark, -⟩ := h.first
    refine ⟨fun c hc => ⟨(h.within c hc).1, fun hmem => absurd hmem (h.within c hc).2⟩, ?_,
      h.startsPlain, h.marker, ?_⟩
    · rw [hw]
      rintro ⟨⟩
      exact hmark rfl
    · rw [readPlain, readPlainFrom_line h.toGoesOn rfl fun hne => absurd rfl hne]
      rfl
  · rintro ⟨hline, hmark, hstart, hmarker, hread⟩
    obtain ⟨hgoes, -⟩ := goesOn_of_readPlainFrom hline rfl (fun hne => absurd rfl hne) hread
    refine { toGoesOn := hgoes, first := ?_, marker := hmarker }
    cases w with
    | nil => cases hstart
    | cons c rest =>
      refine ⟨c, rest, rfl, ?_, fun e => hmark (by rw [e]; rfl), fun hmem => ?_⟩
      · rintro rfl
        simp [Markup.startsPlain, isSpacing] at hstart
      · have hindicator : indicators.contains c = true := List.contains_iff_mem.mpr hmem
        simp only [Markup.startsPlain, hindicator, Bool.not_true, Bool.and_false, Bool.false_or,
          Bool.and_eq_true, Bool.not_eq_true', Bool.not_false, Bool.true_and, Bool.or_eq_true,
          decide_eq_true_eq] at hstart
        refine ⟨hstart.2, ?_⟩
        cases rest with
        | nil => cases hstart.1
        | cons d more =>
          refine ⟨d, more, rfl, ?_⟩
          rintro rfl
          cases hstart.1

theorem tokensOf_plainLine {w : List Char} (h : PlainLine w) :
    tokensOf w = ⟨[.scalar true (Text.ofChars w), .streamEnd], none⟩ := by
  obtain ⟨c, rest, rfl, hspace, hmark, hindicator⟩ := h.first
  have hbreak := (ne_of_not_mem_lineEnders (h.within c (by simp)).2).1
  have hhash : c ≠ '#' := by
    intro e
    have hmem : '#' ∈ indicators := by decide
    have hsigns : ¬ ('#' = '-' ∨ '#' = '?' ∨ '#' = ':') := by decide
    rw [e] at hindicator
    exact hsigns (hindicator hmem).1
  have hread : readPlain false (innermost [] + 1) ⟨c :: rest, {}⟩ =
      ⟨c :: rest, false, ⟨[], Place.after {} (c :: rest)⟩⟩ :=
    readPlainFrom_line h.toGoesOn rfl fun hne => absurd rfl hne
  exact tokensOf_scalar hmark ⟨hspace, hhash, hbreak⟩
    ((takeToken_of_startsPlain h.startsPlain fun _ => h.marker).trans (takePlain_block hread))

theorem tokensOf_singleQuoted {w : List Char} (h : WithinLine w) :
    tokensOf (singleQuoted w) = ⟨[.scalar false (Text.ofChars w), .streamEnd], none⟩ := by
  have hread : readQuoted false ⟨singleQuoted w, {}⟩ =
      .ok (Text.ofChars w, ⟨[], Place.after {} (singleQuoted w)⟩) :=
    readSingleFrom_line h rfl
  exact tokensOf_scalar (by decide) ⟨by decide, by decide, by decide⟩
    (takeToken_single.trans (takeQuoted_block hread))

/-! ## 4. The document -/

/-- A document that is one atom. -/
def lone (a : Atom) : Document :=
  ⟨⟨#[.atom a]⟩, 0⟩

theorem compose_scalar (plain : Bool) (t : Text) :
    Composition.compose [.scalar plain t, .streamEnd] none =
      .ok (some ⟨#[⟨Composition.scalarTag plain false t, .scalar t⟩], 0⟩) := by
  have hscalar : ({} : Composition).feed (.scalar plain t) = .ok
      { drafts := #[⟨Composition.scalarTag plain false t, .scalar t, []⟩], root := some 0,
        handles := Composition.commonHandles, expected := [.closing] } := rfl
  have hend : ∀ c : Composition, c.expected = [.closing] →
      c.feed .streamEnd = .ok (c.expect [.done]) := by
    rintro c hc
    rw [Composition.feed, hc]
    rfl
  rw [Composition.compose, List.foldlM_cons, hscalar, ok_bind, List.foldlM_cons, hend _ rfl]
  simp [Composition.expect, Draft.node]

/-- The value of a text under a tag, if it has one. -/
def meaning (tag : Tag) (t : Text) : Except Fault Atom :=
  (Scalar.valueOf? (.computed 0) tag t).getD (.error .malformed)

/-- The state in which the object of a single scalar node is made. -/
def alone (tag : Tag) (t : Text) : Making :=
  { nodes := #[⟨tag, .scalar t⟩], objects := #[none] }

theorem make_alone {tag : Tag} (h : Making.emptyOf? tag = none) (t : Text) :
    Making.make 0 (alone tag t) = (meaning tag t).map fun a => (alone tag t).put 0 (.atom a) := by
  have hnone : (alone tag t).object? 0 = none := rfl
  have hnode : (alone tag t).node 0 = ⟨tag, .scalar t⟩ := rfl
  have htext : (alone tag t).text 0 = .ok t := rfl
  have hmapping : (alone tag t).isMapping 0 = false := rfl
  rw [Making.make, hnone, meaning]
  simp only [Option.isSome_none, Bool.false_eq_true, if_false, hnode, h, htext, hmapping,
    Bool.and_false, ok_bind]
  have hbind : ∀ r : Except Fault Atom,
      (do return (alone tag t).put 0 (.atom (← r)) : Except Fault Making) =
        r.map fun a => (alone tag t).put 0 (.atom a) := fun r => by
    cases r <;> rfl
  cases tag with
  | null => rfl
  | bool => exact hbind _
  | int => exact hbind _
  | float => exact hbind _
  | binary => exact hbind _
  | timestamp => exact hbind _
  | str => rfl
  | merge => rfl
  | value => rfl
  | other => rfl
  | seq => cases h
  | map => cases h
  | omap => cases h
  | pairs => cases h
  | set => cases h

/-- A document of one scalar node has the value of its text, if the tag is not that of a
    collection. -/
theorem document_scalar {tag : Tag} (h : Making.emptyOf? tag = none) (t : Text) :
    (⟨#[⟨tag, .scalar t⟩], 0⟩ : Composed).document = (meaning tag t).map lone := by
  have hstart : ({ nodes := #[⟨tag, .scalar t⟩], objects := Array.replicate 1 none } : Making) =
      alone tag t := rfl
  have hmake := make_alone h t
  unfold Composed.document
  simp only [List.size_toArray, List.length_cons, List.length_nil, Nat.zero_add, hstart, hmake]
  cases meaning tag t with
  | error f => rfl
  | ok a =>
    have hfill : Making.fillAll 2 ((alone tag t).put 0 (.atom a)) =
        .ok ((alone tag t).put 0 (.atom a)) := rfl
    simp only [Except.map, ok_bind, hfill]
    simp [Making.put, alone, lone]

theorem emptyOf?_tagOf (w : List Char) : Making.emptyOf? (Pattern.tagOf w) = none := by
  rw [Pattern.tagOf, Pattern.tagOfWhole]
  repeat' split
  all_goals rfl

/-- **A line that is a plain scalar is read as that**: its value is that of the text under the tag
    that it is taken for. -/
theorem load_plainLine {w : List Char} (h : PlainLine w) :
    load w = (meaning (Pattern.tagOf w) (Text.ofChars w)).map fun a => some (lone a) := by
  have htag : Composition.scalarTag true false (Text.ofChars w) = Pattern.tagOf w := by
    rw [Composition.scalarTag, Text.chars?_ofChars]
    rfl
  rw [load, isSource_of_within h.within]
  simp only [Bool.not_true, Bool.false_eq_true, if_false, tokensOf_plainLine h, compose_scalar,
    ok_bind, htag, document_scalar (emptyOf?_tagOf w)]
  cases meaning (Pattern.tagOf w) (Text.ofChars w) <;> rfl

/-- **A line between single quotes is read as the string that it is.** -/
theorem load_singleQuoted {w : List Char} (h : WithinLine w) :
    load (singleQuoted w) = .ok (some (lone (.str (Text.ofChars w)))) := by
  have htag : Composition.scalarTag false false (Text.ofChars w) = .str := rfl
  rw [load, isSource_of_within h.singleQuoted]
  simp only [Bool.not_true, Bool.false_eq_true, if_false, tokensOf_singleQuoted h, compose_scalar,
    ok_bind, htag, document_scalar (show Making.emptyOf? .str = none from rfl)]
  rfl

end Conform.Markup
