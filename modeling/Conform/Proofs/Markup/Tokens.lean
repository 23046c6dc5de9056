import Mathlib.Data.Bool.AllAny
import Conform.Proofs.Markup.Layout
import Conform.Proofs.Markup.Scalar.Gap
import Conform.Proofs.Number.Numeral

/-!
# Taking tokens in block context

What each kind of token makes of a block layout that stands in front of it. The marks of entries,
keys and values open a collection if they stand further in than the innermost one; a scalar becomes
a candidate where a key may start, and a colon behind a candidate makes it a key.
-/

namespace Conform.Markup.Layout

/-! ## 1. Candidates and collections -/

/-- The candidate that a token becomes, if a key may start there. -/
def noted (c : Cursor) (tokens : List Token) (columns : List Nat) (allowed : Bool) :
    Option Candidate :=
  if allowed then some ⟨tokens.length, innermost columns = c.place.column, c.place⟩ else none

/-- The tokens after a collection is opened at a column, if that is further in. -/
def opened (t : Token) (column : Nat) (columns : List Nat) (tokens : List Token) : List Token :=
  if innermost columns < column then t :: tokens else tokens

/-- The columns after a collection is opened at a column, if that is further in. -/
def widened (column : Nat) (columns : List Nat) : List Nat :=
  if innermost columns < column then column :: columns else columns

section Block

variable {c : Cursor} {tokens : List Token} {columns : List Nat} {allowed : Bool}
  {candidate : Option Candidate}

theorem noteCandidate_block :
    (block c tokens columns allowed none).noteCandidate =
      .ok (block c tokens columns allowed (noted c tokens columns allowed)) := by
  cases allowed with
  | true => simp [noteCandidate, dropCandidate, noted, block, inFlow]; rfl
  | false => rfl

theorem dropCandidate_block (h : ∀ k ∈ candidate, k.required = false) :
    (block c tokens columns allowed candidate).dropCandidate =
      .ok (block c tokens columns allowed none) := by
  cases candidate with
  | none => rfl
  | some k =>
    rw [dropCandidate, candidate?_block]
    simp only [h k rfl, Bool.false_eq_true, if_false, setCandidate_block]

theorem openBlock_block (t : Token) :
    (block c tokens columns true candidate).openBlock t =
      .ok (block c (opened t c.place.column columns tokens) (widened c.place.column columns) true
        candidate) := by
  unfold openBlock opened widened
  by_cases h : innermost columns < c.place.column
  · simp only [inFlow_block, keyAllowed_block, opens, indent_block, cursor_block, h, decide_true,
      if_true]
    rfl
  · simp only [inFlow_block, keyAllowed_block, opens, indent_block, cursor_block, h, decide_false,
      Bool.false_eq_true, if_false]
    rfl

/-- A token in front of some of those that are there. -/
theorem insertAt_block (front : List Token) (t : Token) :
    (block c (front ++ tokens) columns allowed candidate).insertAt tokens.length t =
      block c (front ++ t :: tokens) columns allowed candidate := by
  have hbehind : (front ++ tokens).length - tokens.length = front.length := by simp
  have hcount : (front ++ tokens).length + 1 = (front ++ t :: tokens).length := by simp; omega
  have hreversed : (block c (front ++ tokens) columns allowed candidate).reversed =
      front ++ tokens := rfl
  have hlength : (block c (front ++ tokens) columns allowed candidate).count =
      (front ++ tokens).length := rfl
  rw [insertAt]
  simp only [hreversed, hlength, hbehind, hcount, List.take_left, List.drop_left]
  rfl

/-! ## 2. What each token does -/

theorem takePlain_block {r : PlainScalar} (h : readPlain false (innermost columns + 1) c = r) :
    (block c tokens columns allowed none).takePlain =
      .ok (block r.after (.scalar true (Text.ofChars r.text) :: tokens) columns r.broken
        (noted c tokens columns allowed)) := by
  rw [takePlain, noteCandidate_block, ok_bind]
  subst h
  rfl

theorem takeQuoted_block {double : Bool} {text : Text} {c' : Cursor}
    (h : readQuoted double c = .ok (text, c')) :
    (block c tokens columns allowed none).takeQuoted double =
      .ok (block c' (.scalar false text :: tokens) columns false
        (noted c tokens columns allowed)) := by
  rw [takeQuoted, noteCandidate_block, ok_bind, cursor_block, h]
  rfl

/-- Where no key may start, the candidate stays. -/
theorem takeQuoted_block_candidate {double : Bool} {text : Text} {c' : Cursor}
    (h : readQuoted double c = .ok (text, c')) :
    (block c tokens columns false candidate).takeQuoted double =
      .ok (block c' (.scalar false text :: tokens) columns false candidate) := by
  rw [takeQuoted]
  simp only [noteCandidate, keyAllowed_block, Bool.false_eq_true, if_false]
  rw [show (pure (block c tokens columns false candidate) : Except Fault Layout) =
    .ok (block c tokens columns false candidate) from rfl, ok_bind, cursor_block, h]
  rfl

theorem takeTag_block {t : WrittenTag} {c' : Cursor} (h : readTag c = .ok (t, c')) :
    (block c tokens columns allowed none).takeTag =
      .ok (block c' (.tag t :: tokens) columns false (noted c tokens columns allowed)) := by
  rw [takeTag, noteCandidate_block, ok_bind, cursor_block, h]
  rfl

theorem takeBlock_block {folded : Bool} {text : List Char} {c' : Cursor}
    (hk : ∀ k ∈ candidate, k.required = false)
    (h : readBlock folded (innermost columns) c = .ok (text, c')) :
    (block c tokens columns allowed candidate).takeBlock folded =
      .ok (block c' (.scalar false (Text.ofChars text) :: tokens) columns true none) := by
  rw [takeBlock, dropCandidate_block hk, ok_bind, cursor_block, indent_block, h]
  rfl

theorem takeBlockEntry_block :
    (block c tokens columns true none).takeBlockEntry =
      .ok (block (c.drop 1) (.blockEntry :: opened .blockSequenceStart c.place.column columns tokens)
        (widened c.place.column columns) true none) := by
  rw [takeBlockEntry, openBlock_block, ok_bind, dropCandidate_block (by simp), ok_bind]
  rfl

theorem takeKey_block :
    (block c tokens columns true none).takeKey =
      .ok (block (c.drop 1) (.key :: opened .blockMappingStart c.place.column columns tokens)
        (widened c.place.column columns) true none) := by
  rw [takeKey, openBlock_block, ok_bind, dropCandidate_block (by simp), ok_bind]
  rfl

/-- A colon without a candidate. -/
theorem takeValue_block :
    (block c tokens columns true none).takeValue =
      .ok (block (c.drop 1) (.value :: opened .blockMappingStart c.place.column columns tokens)
        (widened c.place.column columns) true none) := by
  rw [takeValue, toValue, candidate?_block]
  simp only [openBlock_block, ok_bind]
  rfl

/-- A colon behind its candidate. -/
theorem takeValue_block_candidate {t : Token} {k : Candidate} (h : k.position = tokens.length) :
    (block c (t :: tokens) columns allowed (some k)).takeValue =
      .ok (block (c.drop 1)
        (.value :: t :: .key :: opened .blockMappingStart k.place.column columns tokens)
        (widened k.place.column columns) false none) := by
  have hkey : ({ block c (t :: tokens) columns allowed none with keyAllowed := false } : Layout).insertAt
      tokens.length .key = block c (t :: .key :: tokens) columns false none :=
    insertAt_block [t] .key
  have hstart : ((block c (t :: .key :: tokens) columns false none).indentTo k.place.column).insertAt
      tokens.length .blockMappingStart =
        block c (t :: .key :: .blockMappingStart :: tokens) (k.place.column :: columns) false none :=
    insertAt_block [t, .key] .blockMappingStart
  rw [takeValue, toValue, candidate?_block]
  simp only [makeKey, ok_bind, setCandidate_block, h, hkey]
  unfold opened widened
  by_cases hopens : innermost columns < k.place.column
  · simp only [inFlow_block, opens, indent_block, hopens, decide_true, Bool.not_false, Bool.and_self,
      if_true]
    rw [hstart]
    rfl
  · simp only [inFlow_block, opens, indent_block, hopens, decide_false, Bool.and_false,
      Bool.false_eq_true, if_false]
    rfl

theorem takeMarker_block {t : Token} (hk : ∀ k ∈ candidate, k.required = false) :
    (block c tokens columns allowed candidate).takeMarker t =
      .ok (block (c.drop 3) (t :: closed (-1) columns tokens) (kept (-1) columns) false none) := by
  rw [takeMarker, unwind_block, dropCandidate_block hk, ok_bind]
  rfl

theorem takeEnd_block (hk : ∀ k ∈ candidate, k.required = false) :
    (block c tokens columns allowed candidate).takeEnd =
      .ok (block c (.streamEnd :: closed (-1) columns tokens) (kept (-1) columns) false none) := by
  rw [takeEnd, unwind_block, dropCandidate_block hk, ok_bind]
  rfl

end Block

/-! ## 3. Which token stands in front -/

/-- A space or a line feed stands in front, as behind every mark that is written. -/
def Apart (rest : List Char) : Prop :=
  ∃ more, rest = ' ' :: more ∨ rest = '\n' :: more

theorem Apart.endsWord {rest : List Char} (h : Apart rest) : endsWord rest = true := by
  obtain ⟨more, rfl | rfl⟩ := h <;> rfl

section Front

variable {p : Place} {rest : List Char} {tokens : List Token} {columns : List Nat} {allowed : Bool}
  {candidate : Option Candidate}

theorem takeToken_entry (h : Apart rest) :
    (block ⟨'-' :: rest, p⟩ tokens columns allowed candidate).takeToken =
      (block ⟨'-' :: rest, p⟩ tokens columns allowed candidate).takeBlockEntry := by
  have hmarker : startsMarker ('-' :: rest) = false := by
    obtain ⟨more, rfl | rfl⟩ := h <;> rfl
  rw [takeToken]
  simp [block, hmarker, h.endsWord]

theorem takeToken_key (h : Apart rest) :
    (block ⟨'?' :: rest, p⟩ tokens columns allowed candidate).takeToken =
      (block ⟨'?' :: rest, p⟩ tokens columns allowed candidate).takeKey := by
  have hmarker : startsMarker ('?' :: rest) = false := rfl
  rw [takeToken]
  simp [block, hmarker, h.endsWord]

theorem takeToken_value (h : Apart rest) :
    (block ⟨':' :: rest, p⟩ tokens columns allowed candidate).takeToken =
      (block ⟨':' :: rest, p⟩ tokens columns allowed candidate).takeValue := by
  have hmarker : startsMarker (':' :: rest) = false := rfl
  rw [takeToken]
  simp [block, hmarker, h.endsWord]

theorem takeToken_tag :
    (block ⟨'!' :: rest, p⟩ tokens columns allowed candidate).takeToken =
      (block ⟨'!' :: rest, p⟩ tokens columns allowed candidate).takeTag := by
  have hmarker : startsMarker ('!' :: rest) = false := rfl
  rw [takeToken]
  simp [block, hmarker]

theorem takeToken_block :
    (block ⟨'|' :: rest, p⟩ tokens columns allowed candidate).takeToken =
      (block ⟨'|' :: rest, p⟩ tokens columns allowed candidate).takeBlock false := by
  have hmarker : startsMarker ('|' :: rest) = false := rfl
  rw [takeToken]
  simp [block, hmarker, inFlow]

theorem takeToken_single :
    (block ⟨'\'' :: rest, p⟩ tokens columns allowed candidate).takeToken =
      (block ⟨'\'' :: rest, p⟩ tokens columns allowed candidate).takeQuoted false := by
  have hmarker : startsMarker ('\'' :: rest) = false := rfl
  rw [takeToken]
  simp [block, hmarker]

theorem takeToken_double :
    (block ⟨'"' :: rest, p⟩ tokens columns allowed candidate).takeToken =
      (block ⟨'"' :: rest, p⟩ tokens columns allowed candidate).takeQuoted true := by
  have hmarker : startsMarker ('"' :: rest) = false := rfl
  rw [takeToken]
  simp [block, hmarker]

/-- A marker at the start of a line. -/
theorem takeToken_marker {c : Char} (hc : c = '-' ∨ c = '.') (hp : p.column = 0)
    (h : Apart rest) :
    (block ⟨c :: c :: c :: rest, p⟩ tokens columns allowed candidate).takeToken =
      (block ⟨c :: c :: c :: rest, p⟩ tokens columns allowed candidate).takeMarker
        (if c = '-' then .documentStart else .documentEnd) := by
  have hmarker : startsMarker (c :: c :: c :: rest) = true := by
    rcases hc with rfl | rfl
    · exact h.endsWord
    · exact h.endsWord
  have hpercent : c ≠ '%' := by
    rcases hc with rfl | rfl <;> decide
  rw [takeToken]
  simp [block, hmarker, hp, hpercent]

/-- What starts a plain scalar starts nothing else, unless it is a marker. -/
theorem takeToken_of_startsPlain {c : Char} (hplain : startsPlain false (c :: rest) = true)
    (hmarker : p.column = 0 → startsMarker (c :: rest) = false) :
    (block ⟨c :: rest, p⟩ tokens columns allowed candidate).takeToken =
      (block ⟨c :: rest, p⟩ tokens columns allowed candidate).takePlain := by
  rw [startsPlain] at hplain
  have hne : ∀ d ∈ Style.openers, c ≠ d := by
    have hall : ∀ d ∈ Style.openers, ∀ ends : Bool,
        (!isSpacing d && !isBreak d && !indicators.contains d ||
          !ends && (d = '-' || (!false && (d = '?' || d = ':')))) = false :=
      forall_mem_of_all (by decide)
    rintro d hd rfl
    rw [hall c hd] at hplain
    cases hplain
  have hmarks : ∀ d : Char, d = '-' ∨ d = '?' ∨ d = ':' →
      (decide (c = d) && endsWord rest) = false := by
    have hall : ∀ d ∈ "-?:".toList, (!isSpacing d && !isBreak d && !indicators.contains d ||
        !true && (d = '-' || (!false && (d = '?' || d = ':')))) = false :=
      forall_mem_of_all (by decide)
    intro d hd
    by_cases hcd : c = d
    · cases hends : endsWord rest with
      | false => rw [Bool.and_false]
      | true =>
        rw [hends, hall c (by rw [hcd]; simpa using hd)] at hplain
        cases hplain
    · simp [hcd]
  have hstart : ¬ (decide (p.column = 0) && startsMarker (c :: rest)) = true := by
    intro h
    rw [Bool.and_eq_true, decide_eq_true_eq] at h
    rw [hmarker h.1] at h
    exact Bool.false_ne_true h.2
  have hflow : ∀ d : Char, d = '?' ∨ d = ':' →
      (decide (c = d) && (false || endsWord rest)) = false := fun d hd => by
    rw [Bool.false_or]
    exact hmarks d (.inr hd)
  rw [takeToken]
  simp only [cursor_block, inFlow_block, hmarks '-' (by simp), hflow '?' (by simp),
    hflow ':' (by simp), startsPlain, hplain, hne '%' (by decide), hne '[' (by decide),
    hne ']' (by decide), hne '\x7b' (by decide), hne '\x7d' (by decide), hne ',' (by decide),
    hne '*' (by decide), hne '&' (by decide), hne '!' (by decide), hne '|' (by decide),
    hne '>' (by decide), hne '\'' (by decide), hne '"' (by decide), decide_false, Bool.false_and,
    Bool.false_eq_true, if_false, if_true]
  exact if_neg hstart

/-- The first character of a plain scalar is none of those with which something else starts. -/
theorem takeToken_plain {c : Char} (hshown : Style.isShown c = true)
    (hopener : Style.openers.contains c = false) (hspace : c ≠ ' ')
    (hmark : c = '-' ∨ c = '?' ∨ c = ':' → endsWord rest = false)
    (hmarker : p.column = 0 → startsMarker (c :: rest) = false) :
    (block ⟨c :: rest, p⟩ tokens columns allowed candidate).takeToken =
      (block ⟨c :: rest, p⟩ tokens columns allowed candidate).takePlain := by
  refine takeToken_of_startsPlain ?_ hmarker
  rw [startsPlain]
  by_cases hsign : c = '-' ∨ c = '?' ∨ c = ':'
  · rw [hmark hsign]
    rcases hsign with rfl | rfl | rfl <;> decide
  · have hindicator : indicators.contains c = false := by
      have hsplit : ∀ d ∈ indicators, d ∈ Style.openers ∨ d = '-' ∨ d = '?' ∨ d = ':' :=
        List.all_iff_forall_prop.mp (by decide)
      rw [List.contains_eq_mem, decide_eq_false_iff_not] at hopener ⊢
      exact fun hmem => (hsplit c hmem).elim hopener hsign
    rw [Style.isSpacing_of_isShown hshown hspace, Style.isBreak_of_isShown hshown, hindicator]
    rfl

end Front

/-! ## 4. Behind the last token of a line -/

/-- What a scalar leaves as a candidate is given up on the next line. -/
theorem given_up_of_noted {c c' : Cursor} {tokens : List Token} {columns : List Nat}
    {allowed : Bool} (hcolumn : innermost columns ≠ c.place.column)
    (hline : c.place.line < c'.place.line) :
    ∀ k ∈ noted c tokens columns allowed, k.required = false ∧ k.place.line ≠ c'.place.line := by
  intro k hk
  rw [noted] at hk
  split at hk
  · cases hk
    exact ⟨decide_eq_false hcolumn, Nat.ne_of_lt hline⟩
  · cases hk

/-- A token that is the last one of its line brings reading to the next line. -/
theorem arrives_of_take {s : Layout} {c c₁ c' : Cursor} {t : Token} {tokens : List Token}
    {columns : List Nat} {allowed again broken : Bool}
    (hfront : s.front = .ok (block c tokens columns allowed none))
    (htake : (block c tokens columns allowed none).takeToken =
      .ok (block c₁ (t :: tokens) columns again (noted c tokens columns allowed)))
    (ht : t ≠ .streamEnd) (hlength : c₁.rest.length < c.rest.length)
    (hcolumn : innermost columns ≠ c.place.column)
    (hskip : skipTrivia false false c₁.rest c₁.place = (broken, c'))
    (hagain : (again || broken) = true) (hline : c.place.line < c'.place.line) :
    s.Arrives c' columns (t :: tokens) := by
  refine ⟨_, Leads.of_take hfront htake (by simpa using ht) hlength, ?_⟩
  rw [front_block hskip (given_up_of_noted hcolumn hline), hagain]

/-! ## 5. Empty brackets -/

/-- A pair of brackets and its tokens. -/
inductive Brackets : Char → Char → Token → Token → Prop where
  | list : Brackets '[' ']' .flowSequenceStart .flowSequenceEnd
  | map : Brackets '\x7b' '\x7d' .flowMappingStart .flowMappingEnd

/-- A layout between two brackets. -/
def between (c : Cursor) (tokens : List Token) (columns : List Nat)
    (candidate : Option Candidate) : Layout :=
  { block c tokens columns true none with candidates := [none, candidate] }

section Brackets

variable {opening closing : Char} {first last : Token} {p : Place} {rest : List Char}
  {tokens : List Token} {columns : List Nat} {allowed : Bool} {candidate : Option Candidate}

theorem takeToken_opening (h : Brackets opening closing first last) :
    (block ⟨opening :: rest, p⟩ tokens columns allowed none).takeToken =
      .ok (between ⟨rest, p.next opening⟩ (first :: tokens) columns
        (noted ⟨opening :: rest, p⟩ tokens columns allowed)) := by
  have hmarker : startsMarker (opening :: rest) = false := by
    cases h <;> rfl
  have htoken : (block ⟨opening :: rest, p⟩ tokens columns allowed none).takeToken =
      (block ⟨opening :: rest, p⟩ tokens columns allowed none).takeFlowStart first := by
    rw [takeToken]
    cases h <;> simp [block, hmarker]
  rw [htoken, takeFlowStart, noteCandidate_block, ok_bind]
  rfl

theorem front_between (h : Brackets opening closing first last)
    (hk : ∀ k ∈ candidate, isStale p k = false) :
    (between ⟨closing :: rest, p⟩ tokens columns candidate).front =
      .ok (between ⟨closing :: rest, p⟩ tokens columns candidate) := by
  have hsolid : Solid (closing :: rest) := by
    cases h <;> exact ⟨by decide, by decide, by decide⟩
  have hstale : (between ⟨closing :: rest, p⟩ tokens columns candidate).dropStale =
      .ok (between ⟨closing :: rest, p⟩ tokens columns candidate) := by
    rw [dropStale, if_neg]
    · cases candidate with
      | none => rfl
      | some k => simp [between, block, hk k rfl]
    · cases candidate with
      | none => simp [between]
      | some k => simp [between, block, hk k rfl]
  have hnext : (between ⟨closing :: rest, p⟩ tokens columns candidate).toNextToken =
      between ⟨closing :: rest, p⟩ tokens columns candidate := by
    rw [toNextToken]
    simp [between, block, skipTrivia_solid hsolid]
  rw [front, hstale, ok_bind, hnext, hstale, ok_bind, unwind]
  rfl

theorem takeToken_closing (h : Brackets opening closing first last) :
    (between ⟨closing :: rest, p⟩ tokens columns candidate).takeToken =
      .ok (block ⟨rest, p.next closing⟩ (last :: tokens) columns false candidate) := by
  have hmarker : startsMarker (closing :: rest) = false := by
    cases h <;> rfl
  have htoken : (between ⟨closing :: rest, p⟩ tokens columns candidate).takeToken =
      (between ⟨closing :: rest, p⟩ tokens columns candidate).takeFlowEnd last := by
    rw [takeToken]
    cases h <;> simp [between, block, hmarker]
  rw [htoken]
  rfl

/-- **A pair of brackets is two tokens**, of which the first can turn out to be a key. -/
theorem leads_brackets {s : Layout} (h : Brackets opening closing first last)
    (hfront : s.front =
      .ok (block ⟨opening :: closing :: rest, p⟩ tokens columns allowed none)) :
    s.Leads (block ⟨rest, (p.next opening).next closing⟩ (last :: first :: tokens) columns false
      (noted ⟨opening :: closing :: rest, p⟩ tokens columns allowed)) := by
  have hinline : Place.IsInline opening := by
    cases h <;> exact ⟨by decide, by decide⟩
  have hnear : ∀ k ∈ noted ⟨opening :: closing :: rest, p⟩ tokens columns allowed,
      isStale (p.next opening) k = false := by
    intro k hk
    rw [noted] at hk
    split at hk
    · cases hk
      simp [isStale, Place.next_of_inline hinline]
    · cases hk
  have hlast : last ≠ .streamEnd ∧ first ≠ .streamEnd := by
    cases h <;> exact ⟨by simp, by simp⟩
  refine (Leads.of_take hfront (takeToken_opening h) ?_ ?_).trans
    (Leads.of_take (front_between h hnear) (takeToken_closing h) ?_ ?_)
  · simpa [between] using hlast.2
  · simp [between]
  · simpa using hlast.1
  · simp [between]

end Brackets

end Conform.Markup.Layout
