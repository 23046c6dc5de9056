import Conform.Markup.Print
import Conform.Proofs.Markup.Scalar.Forms
import Conform.Proofs.Markup.Scalar.Single
import Conform.Proofs.Markup.Shown
import Conform.Proofs.TextLines

/-!
# Markers in a written document

A document starts with a marker, three hyphens at the start of a line. None of its other lines
starts like that, whatever the record holds: what is written at the start of a line is a mark of a
collection with a space behind it, or a key, and a text that starts with three hyphens stands in
quotes; the other lines of a scalar are indented (`unmarked_print`). The proof follows the writer
piece by piece, with an account of how far the line has come towards a marker.
-/

namespace Conform.Markup

/-! ## 1. How far a line has come -/

/-- What a line starts with so far. -/
inductive Onset where
  /-- So many hyphens, and nothing else yet. -/
  | hyphens (n : Nat)
  /-- Something that starts no marker. -/
  | other
  deriving DecidableEq

namespace Onset

/-- The onset behind one more character; none behind the third hyphen. -/
def next (q : Onset) (c : Char) : Option Onset :=
  if c = '\n' then some (.hyphens 0)
  else
    match q with
    | .other => some .other
    | .hyphens n => if c ≠ '-' then some .other else if n < 2 then some (.hyphens (n + 1)) else none

/-- The onset behind some characters, unless a line among them starts with a marker. -/
def after (q : Onset) (cs : List Char) : Option Onset :=
  cs.foldlM next q

theorem after_nil (q : Onset) : q.after [] = some q := rfl

theorem after_cons (q : Onset) (c : Char) (cs : List Char) :
    q.after (c :: cs) = (q.next c).bind fun q => q.after cs := rfl

theorem after_append (q : Onset) (xs ys : List Char) :
    q.after (xs ++ ys) = (q.after xs).bind fun q => q.after ys :=
  List.foldlM_append

theorem after_of_some {q q' : Onset} {xs ys : List Char} (h : q.after xs = some q') :
    q.after (xs ++ ys) = q'.after ys := by
  rw [after_append, h]
  rfl

theorem next_solid {c : Char} (hfeed : c ≠ '\n') (hhyphen : c ≠ '-') (q : Onset) :
    q.next c = some .other := by
  cases q <;> simp [next, hfeed, hhyphen]

/-- On a line that starts with something else, nothing starts a marker any more. -/
theorem after_other {cs : List Char} (h : '\n' ∉ cs) : other.after cs = some .other := by
  induction cs with
  | nil => rfl
  | cons c cs ih =>
    obtain ⟨hc, hcs⟩ := not_or.mp fun hor => h (List.mem_cons.mpr hor)
    have hnext : other.next c = some .other := if_neg (Ne.symm hc)
    rw [after_cons, hnext]
    exact ih hcs

theorem after_solid {c : Char} {cs : List Char} (hfeed : '\n' ∉ c :: cs) (hhyphen : c ≠ '-')
    (q : Onset) : q.after (c :: cs) = some .other := by
  obtain ⟨hc, hcs⟩ := not_or.mp fun hor => hfeed (List.mem_cons.mpr hor)
  rw [after_cons, next_solid (Ne.symm hc) hhyphen]
  exact after_other hcs

theorem after_spaces {n : Nat} (hn : 0 < n) (q : Onset) :
    q.after (List.replicate n ' ') = some .other := by
  obtain ⟨n, rfl⟩ := Nat.exists_eq_add_one.mpr hn
  rw [List.replicate_succ]
  refine after_solid (fun h => ?_) (by decide) q
  rw [← List.replicate_succ] at h
  exact absurd (List.eq_of_mem_replicate h) (by decide)

theorem after_newLine {n : Nat} (hn : 0 < n) (q : Onset) :
    q.after (newLine n) = some .other := by
  rw [newLine, after_cons]
  exact after_spaces hn (.hyphens 0)

/-- Without a hyphen there is no marker. -/
theorem exists_after {cs : List Char} (h : '-' ∉ cs) (q : Onset) : ∃ q', q.after cs = some q' := by
  induction cs generalizing q with
  | nil => exact ⟨q, rfl⟩
  | cons c cs ih =>
    obtain ⟨hc, hcs⟩ := not_or.mp fun hor => h (List.mem_cons.mpr hor)
    have hnext : ∃ q', q.next c = some q' := by
      by_cases hfeed : c = '\n'
      · exact ⟨.hyphens 0, if_pos hfeed⟩
      · exact ⟨.other, next_solid hfeed (Ne.symm hc) q⟩
    obtain ⟨q', hq'⟩ := hnext
    rw [after_cons, hq']
    exact ih hcs q'

/-- **What the account means**: no line but the first starts with a marker, and what has come so far
    does not make one with the first. -/
theorem unmarked_of_after {cs : List Char} : ∀ {q q' : Onset} {first : List Char}
    {rest : List (List Char)}, q.after cs = some q' → cs.splitOn '\n' = first :: rest →
      (∀ line ∈ rest, ¬ List.replicate 3 '-' <+: line) ∧
      ∀ n ≤ 2, q = .hyphens n → ¬ List.replicate (3 - n) '-' <+: first := by
  induction cs with
  | nil =>
    intro q q' first rest _ hsplit
    obtain ⟨rfl, rfl⟩ := List.cons.inj (hsplit.symm.trans (List.splitOn_nil '\n'))
    refine ⟨fun _ h => absurd h List.not_mem_nil, fun n hn _ hpre => ?_⟩
    have hlength := hpre.length_le
    simp only [List.length_replicate, List.length_nil] at hlength
    omega
  | cons c cs ih =>
    intro q q' first rest hafter hsplit
    obtain ⟨line, lines, hlines⟩ := List.exists_cons_of_ne_nil (List.splitOn_ne_nil '\n' cs)
    rw [after_cons] at hafter
    obtain ⟨q₁, hnext, hrest⟩ := Option.bind_eq_some_iff.mp hafter
    obtain ⟨hunmarked, hfirst⟩ := ih hrest hlines
    rw [List.splitOn_cons_eq_if_modifyHead, hlines] at hsplit
    by_cases hc : c = '\n'
    · subst hc
      obtain ⟨rfl, rfl⟩ := List.cons.inj hsplit
      obtain rfl : .hyphens 0 = q₁ := Option.some.inj hnext
      refine ⟨List.forall_mem_cons.mpr ⟨hfirst 0 (by decide) rfl, hunmarked⟩, fun n hn _ hpre => ?_⟩
      have hlength := hpre.length_le
      simp only [List.length_replicate, List.length_nil] at hlength
      omega
    · rw [if_neg (by simpa using hc), List.modifyHead_cons] at hsplit
      obtain ⟨rfl, rfl⟩ := List.cons.inj hsplit
      refine ⟨hunmarked, fun n hn hq hpre => ?_⟩
      subst hq
      obtain ⟨m, hm⟩ : ∃ m, 3 - n = m + 1 := ⟨2 - n, by omega⟩
      rw [hm, List.replicate_succ, List.cons_prefix_cons] at hpre
      obtain ⟨rfl, hpre⟩ := hpre
      by_cases hlast : n < 2
      · obtain rfl : .hyphens (n + 1) = q₁ := by simpa [next, hlast] using hnext
        refine hfirst (n + 1) (by omega) rfl ?_
        rwa [show 3 - (n + 1) = m by omega]
      · simp [next, hlast] at hnext

end Onset

/-! ## 2. What pieces keep -/

/-- An assertion about the pen and the line that it stands on. -/
abbrev Assertion := Pen → Onset → Prop

namespace Assertion

/-- The line starts with something else. -/
def settled : Assertion := fun _ q => q = .other

/-- The line starts with something else, or it starts here. -/
def ended : Assertion := fun _ q => q = .other ∨ q = .hyphens 0

/-- The same, and what comes next is not put apart. -/
def opened : Assertion := fun p q => p.spaced = true ∧ ended p q

/-- The line starts with something else, or what comes next is put apart by a space. -/
def apart : Assertion := fun p q => q = .other ∨ p.spaced = false

/-- Any of these. -/
def started : Assertion := fun p q => ended p q ∨ p.spaced = false

/-- No line starts with a marker so far. -/
def unmarked : Assertion := fun _ _ => True

theorem started_of_ended {p : Pen} {q : Onset} (h : ended p q) : started p q := .inl h

theorem started_of_apart {p : Pen} {q : Onset} (h : apart p q) : started p q :=
  h.imp_left .inl

theorem started_of_opened {p : Pen} {q : Onset} (h : opened p q) : started p q := .inl h.2

theorem ended_of_settled {p : Pen} {q : Onset} (h : settled p q) : ended p q := .inl h

theorem apart_of_settled {p : Pen} {q : Onset} (h : settled p q) : apart p q := .inl h

end Assertion

open Assertion

namespace Piece

/-- Behind a piece that starts under an assertion no line starts with a marker, and another assertion
    holds. -/
def Keeps (P : Assertion) (a : Piece) (Q : Assertion) : Prop :=
  ∀ p q, P p q → ∃ q', q.after (a p).1 = some q' ∧ Q (a p).2 q'

namespace Keeps

variable {P Q R : Assertion} {a b : Piece}

theorem andThen (ha : Keeps P a Q) (hb : Keeps Q b R) : Keeps P (a.andThen b) R := by
  intro p q hp
  obtain ⟨q₁, h₁, hq₁⟩ := ha p q hp
  obtain ⟨q₂, h₂, hq₂⟩ := hb _ q₁ hq₁
  refine ⟨q₂, ?_, hq₂⟩
  rw [andThen_apply, Onset.after_of_some h₁]
  exact h₂

theorem under {P' : Assertion} (h : Keeps P a Q) (hP : ∀ {p q}, P' p q → P p q) : Keeps P' a Q :=
  fun p q hp => h p q (hP hp)

theorem imp {Q' : Assertion} (h : Keeps P a Q) (hQ : ∀ {p q}, Q p q → Q' p q) : Keeps P a Q' :=
  fun p q hp =>
    let ⟨q', hafter, hq'⟩ := h p q hp
    ⟨q', hafter, hQ hq'⟩

theorem nothing (h : ∀ {p q}, P p q → Q p q) : Keeps P Piece.nothing Q :=
  fun _ q hp => ⟨q, rfl, h hp⟩

theorem withPen {f : Pen → Piece} (h : ∀ p, Keeps P (f p) Q) : Keeps P (Piece.withPen f) Q :=
  fun p q hp => h p p q hp

end Keeps

/-- An indentation goes on with a line, is there already, or starts a line. -/
theorem indent_cases (n : Nat) (p : Pen) :
    (p.column < n ∧ indent n p = (List.replicate (n - p.column) ' ', ⟨n, true, true⟩)) ∨
    (p.spaced = true ∧ indent n p = ([], p)) ∨ indent n p = (newLine n, ⟨n, true, true⟩) := by
  cases hfresh : p.fresh with
  | false => exact .inr (.inr (indent_of_used hfresh n))
  | true =>
    rcases Nat.lt_trichotomy p.column n with hlt | rfl | hgt
    · exact .inl ⟨hlt, indent_of_fresh hfresh hlt⟩
    · cases hspaced : p.spaced with
      | true =>
        obtain ⟨column, spaced, fresh⟩ := p
        obtain rfl : fresh = true := hfresh
        obtain rfl : spaced = true := hspaced
        exact .inr (.inl ⟨rfl, by simp [indent]⟩)
      | false => exact .inr (.inr (by simp [indent, hfresh, hspaced, newLine]))
    · have hlt : ¬ p.column < n := by omega
      have hne : ¬ p.column = n := by omega
      exact .inr (.inr (by simp [indent, hfresh, hlt, hne, newLine]))

theorem keeps_indent (n : Nat) : Keeps started (indent n) opened := by
  intro p q hp
  rcases indent_cases n p with ⟨hlt, h⟩ | ⟨hspaced, h⟩ | h
  · rw [h]
    exact ⟨.other, Onset.after_spaces (by omega) q, rfl, .inl rfl⟩
  · rw [h]
    exact ⟨q, rfl, hspaced, hp.resolve_right (by simp [hspaced])⟩
  · rw [h]
    by_cases hn : 0 < n
    · exact ⟨.other, Onset.after_newLine hn q, rfl, .inl rfl⟩
    · obtain rfl : n = 0 := by omega
      exact ⟨.hyphens 0, rfl, rfl, .inr rfl⟩

/-- An indicator without a hyphen in front. -/
theorem keeps_indicator {s : List Char} (hs : s.head? ≠ some '-') (hne : s ≠ [])
    (hfeed : '\n' ∉ s) (needsSpace spaced block : Bool) :
    Keeps unmarked (indicator s needsSpace spaced block) settled := by
  intro p q _
  refine ⟨.other, ?_, rfl⟩
  obtain ⟨c, cs, rfl⟩ := List.exists_cons_of_ne_nil hne
  simp only [indicator]
  split
  · exact Onset.after_solid hfeed (fun h => hs (congrArg some h)) q
  · refine Onset.after_solid (fun h => ?_) (by decide) q
    exact hfeed ((List.mem_cons.mp h).resolve_left (by decide))

theorem keeps_word {s : List Char} (hs : s.head? ≠ some '-') (hne : s ≠ [])
    (hfeed : '\n' ∉ s) : Keeps unmarked (word s) settled :=
  keeps_indicator hs hne hfeed true false false

/-- A hyphen at the start of a line is put apart from what follows. -/
theorem keeps_hyphen : Keeps opened (indicator ['-'] true false true) apart := by
  rintro p q ⟨hspaced, rfl | rfl⟩
  · exact ⟨.other, by simp [indicator, hspaced, Onset.after_cons, Onset.next, Onset.after_nil],
      .inl rfl⟩
  · exact ⟨.hyphens 1, by simp [indicator, hspaced, Onset.after_cons, Onset.next, Onset.after_nil],
      .inr rfl⟩

end Piece

/-! ## 3. Scalars -/

/-- A text that can stand where a line starts: one line, which does not start with a marker. -/
def Unmarked (cs : List Char) : Prop :=
  '\n' ∉ cs ∧ ¬ List.replicate 3 '-' <+: cs

theorem after_plainFrom {folds : Bool} {n : Nat} (hn : 0 < n) {cs : List Char} (hfeed : '\n' ∉ cs)
    {q : Onset} {spaces : Nat} (h : q = .other ∨ 0 < spaces) (column : Nat) :
    q.after (plainFrom folds n spaces column cs).1 = some .other := by
  have hfront : ∀ k, q = .other ∨ 0 < k → q.after (List.replicate k ' ') = some .other := by
    rintro k (rfl | hk)
    · exact Onset.after_other fun h => absurd (List.eq_of_mem_replicate h) (by decide)
    · exact Onset.after_spaces hk q
  induction cs generalizing q spaces column with
  | nil => exact hfront spaces h
  | cons c cs ih =>
    obtain ⟨hc, hcs⟩ := not_or.mp fun hor => hfeed (List.mem_cons.mpr hor)
    have hchar : ∀ column, Onset.other.after (c :: (plainFrom folds n 0 column cs).1) =
        some .other := fun column => by
      rw [Onset.after_cons, show Onset.other.next c = some .other from if_neg (Ne.symm hc)]
      refine ih hcs (.inl rfl) column fun k hk => ?_
      exact Onset.after_other fun h => absurd (List.eq_of_mem_replicate h) (by decide)
    rw [plainFrom]
    split
    · exact ih hcs (.inr (Nat.succ_pos spaces)) column hfront
    · dsimp only
      split
      · rw [Onset.after_of_some (Onset.after_newLine hn q)]
        exact hchar _
      · rw [Onset.after_of_some (hfront spaces h)]
        exact hchar _

/-- A plain text that starts a line: the hyphens in front of it are fewer than three. -/
theorem exists_after_plainFrom (folds : Bool) {n : Nat} (hn : 0 < n) {cs : List Char}
    (hfeed : '\n' ∉ cs) {k : Nat} (hk : k ≤ 2) (hmarker : ¬ List.replicate (3 - k) '-' <+: cs)
    (column : Nat) : ∃ q, (Onset.hyphens k).after (plainFrom folds n 0 column cs).1 = some q := by
  induction cs generalizing k column with
  | nil => exact ⟨_, rfl⟩
  | cons c cs ih =>
    obtain ⟨hc, hcs⟩ := not_or.mp fun hor => hfeed (List.mem_cons.mpr hor)
    rw [plainFrom]
    split
    · exact ⟨.other, after_plainFrom hn hcs (.inr Nat.one_pos) column⟩
    · simp only [Nat.zero_ne_one, decide_false, Bool.false_and, Bool.false_eq_true, if_false,
        List.replicate_zero, List.nil_append]
      by_cases hhyphen : c = '-'
      · subst hhyphen
        have hlast : k < 2 := by
          by_contra hge
          obtain rfl : k = 2 := by omega
          exact hmarker ⟨cs, rfl⟩
        have hnext : (Onset.hyphens k).next '-' = some (.hyphens (k + 1)) := by
          simp [Onset.next, hlast]
        rw [Onset.after_cons, hnext]
        refine ih hcs (by omega) (fun hpre => hmarker ?_) _
        rw [show 3 - k = (3 - (k + 1)) + 1 by omega, List.replicate_succ]
        exact List.cons_prefix_cons.mpr ⟨rfl, hpre⟩
      · rw [Onset.after_cons, Onset.next_solid (Ne.symm hc) hhyphen]
        exact ⟨.other, after_plainFrom hn hcs (.inl rfl) _⟩

namespace Piece

/-- A plain scalar that is put apart. -/
theorem keeps_plain {cs : List Char} (h : Unmarked cs) (folds : Bool) {n : Nat} (hn : 0 < n) :
    Keeps apart (plainPiece folds n cs) settled := by
  intro p q hp
  refine ⟨.other, ?_, rfl⟩
  simp only [plainPiece]
  split
  · rename_i hspaced
    exact after_plainFrom hn h.1 (.inl (hp.resolve_right (by simp [hspaced]))) _
  · rw [List.singleton_append, Onset.after_cons, Onset.next_solid (by decide) (by decide)]
    exact after_plainFrom hn h.1 (.inl rfl) _

/-- A plain scalar that starts a line. -/
theorem keeps_plain_key {cs : List Char} (h : Unmarked cs) (folds : Bool) {n : Nat} (hn : 0 < n) :
    Keeps started (plainPiece folds n cs) unmarked := by
  rintro p q ((rfl | rfl) | hspaced)
  · obtain ⟨q', hq', -⟩ := keeps_plain h folds hn p .other (.inl rfl)
    exact ⟨q', hq', trivial⟩
  · cases hspaced : p.spaced with
    | true =>
      obtain ⟨q', hq'⟩ := exists_after_plainFrom folds hn h.1 (Nat.zero_le 2) h.2 (p.column + 0)
      exact ⟨q', by simpa [plainPiece, hspaced] using hq', trivial⟩
    | false =>
      obtain ⟨q', hq', -⟩ := keeps_plain h folds hn p (.hyphens 0) (.inr hspaced)
      exact ⟨q', hq', trivial⟩
  · obtain ⟨q', hq', -⟩ := keeps_plain h folds hn p q (.inr hspaced)
    exact ⟨q', hq', trivial⟩

end Piece

/-- The breaks inside single quotes end with an indentation. -/
theorem after_breaksPiece {n : Nat} (hn : 0 < n) {breaks : List Char} (h : '-' ∉ breaks)
    (q : Onset) : q.after (breaksPiece n breaks) = some .other := by
  have hbreaks : '-' ∉ (if breaks.head? = some '\n' then ['\n'] else []) ++ breaks := by
    split <;> simpa using h
  obtain ⟨q', hq'⟩ := Onset.exists_after hbreaks q
  rw [breaksPiece, Onset.after_of_some hq']
  exact Onset.after_spaces hn q'

/-- What is written for a gap between single quotes. -/
theorem after_singleFront {n : Nat} (hn : 0 < n) (fold : Bool) {gap : List Char} (h : '-' ∉ gap) :
    Onset.other.after (singleFront n fold gap) = some .other := by
  rw [singleFront]
  split
  · exact after_breaksPiece hn (by simpa using h) _
  · rename_i hbreak
    split
    · exact Onset.after_newLine hn _
    · exact Onset.after_other fun hfeed => hbreak (List.any_eq_true.mpr ⟨'\n', hfeed, rfl⟩)

theorem after_singleFrom (folds : Bool) {n : Nat} (hn : 0 < n) {cs : List Char} :
    ∀ {inner : Bool} {gap : List Char} {column : Nat}, '-' ∉ gap →
      Onset.other.after (singleFrom folds n inner gap column cs).1 = some .other := by
  induction cs with
  | nil =>
    intro inner gap column hgap
    have hfront := after_singleFront hn false hgap
    rw [singleFront] at hfront
    rw [singleFrom]
    split
    · rwa [if_pos (by assumption)] at hfront
    · rwa [if_neg (by assumption)] at hfront
  | cons c cs ih =>
    intro inner gap column hgap
    by_cases hgap' : c = ' ' ∨ Style.isAnyBreak c = true
    · have hhyphen : c ≠ '-' := by
        rintro rfl
        exact absurd hgap' (by decide)
      by_cases hgoes : ((c = ' ' && !gap.any Style.isAnyBreak) ||
          (Style.isAnyBreak c && (gap.isEmpty || gap.any Style.isAnyBreak))) = true
      · rw [singleFrom_gap hgoes]
        exact ih fun h => (List.mem_cons.mp h).elim (fun e => hhyphen e.symm) hgap
      · -- Another gap starts, of breaks behind spaces or of spaces behind breaks.
        obtain ⟨fold, column', hwrite⟩ := singleFrom_between folds inner n column gap cs
          (Bool.eq_false_iff.mpr hgoes) hgap'
        rw [hwrite, Onset.after_of_some (after_singleFront hn fold hgap)]
        exact ih (by simpa using Ne.symm hhyphen)
    · obtain ⟨hspace, hbreak⟩ := not_or.mp hgap'
      obtain ⟨fold, column', -, hwrite⟩ := singleFrom_word folds inner n column gap cs hspace
        (Bool.eq_false_iff.mpr hbreak)
      have hown : Onset.other.after (singleOwn c) = some .other := by
        refine Onset.after_other fun h => ?_
        rw [singleOwn] at h
        split at h
        · exact absurd h (by decide)
        · obtain rfl : '\n' = c := by simpa using h
          exact hbreak rfl
      rw [hwrite, List.append_assoc, Onset.after_of_some (after_singleFront hn fold hgap),
        Onset.after_of_some hown]
      exact ih List.not_mem_nil

theorem after_foldDouble {n : Nat} (hn : 0 < n) (spaceNext : Bool) :
    Onset.other.after (foldDouble n spaceNext) = some .other := by
  have hfront : Onset.other.after ('\\' :: newLine n) = some .other :=
    Onset.after_newLine hn .other
  rw [foldDouble, Onset.after_of_some hfront]
  cases spaceNext <;> rfl

theorem after_doubleFrom (folds : Bool) {n : Nat} (hn : 0 < n) {t : Text} :
    ∀ {first atEscape : Bool} {column : Nat},
      Onset.other.after (doubleFrom folds n first atEscape column t).1 = some .other := by
  have hfold : ∀ fold space : Bool,
      Onset.other.after (if fold then foldDouble n space else []) = some .other := fun fold space => by
    cases fold
    · rfl
    · exact after_foldDouble hn space
  induction t with
  | nil => exact rfl
  | cons p ps ih =>
    intro first atEscape column
    rw [doubleFrom]
    split
    · rename_i hstands
      have hown : Onset.other.after p.char?.toList = some .other := by
        refine Onset.after_other fun h => ?_
        cases p with
        | surrogate s => exact absurd h List.not_mem_nil
        | char c =>
          obtain rfl : '\n' = c := by simpa [CodePoint.char?] using h
          exact absurd hstands (by decide)
      dsimp only
      rw [List.append_assoc, Onset.after_of_some (hfold _ _), Onset.after_of_some hown]
      exact ih
    · have hown : Onset.other.after (escape p) = some .other :=
        Onset.after_other fun h => absurd ((escape_shown p).1 _ h) (by decide)
      dsimp only
      rw [List.append_assoc, Onset.after_of_some hown, Onset.after_of_some (hfold _ _)]
      exact ih

namespace Piece

theorem keeps_text {text : Nat → List Char × Nat}
    (h : ∀ column, Onset.other.after (text column).1 = some .other) :
    Keeps settled (fun p => ((text p.column).1, { p with column := (text p.column).2 })) settled :=
  fun p _ hq => ⟨.other, hq ▸ h p.column, rfl⟩

/-- A text between quotes. -/
theorem keeps_quoted {c : Char} (hc : c ≠ '-' ∧ c ≠ '\n') (text : Nat → List Char × Nat)
    (h : ∀ column, Onset.other.after (text column).1 = some .other) :
    Keeps unmarked ((word [c]).andThen (Piece.andThen
      (fun p => ((text p.column).1, { p with column := (text p.column).2 }))
      (indicator [c] false false false))) settled := by
  have hhead : [c].head? ≠ some '-' := by simpa using hc.1
  have hfeed : '\n' ∉ [c] := by simpa using hc.2.symm
  exact (keeps_word hhead (List.cons_ne_nil c []) hfeed).andThen <|
    (keeps_text h).andThen <|
      (keeps_indicator hhead (List.cons_ne_nil c []) hfeed _ _ _).under fun _ => trivial

theorem keeps_single (folds : Bool) {n : Nat} (hn : 0 < n) (cs : List Char) :
    Keeps unmarked (singlePiece folds n cs) settled :=
  keeps_quoted (by decide) (fun column => singleFrom folds n false [] column cs) fun _ =>
    after_singleFrom folds hn List.not_mem_nil

theorem keeps_double (folds : Bool) {n : Nat} (hn : 0 < n) (t : Text) :
    Keeps unmarked (doublePiece folds n t) settled :=
  keeps_quoted (by decide) (fun column => doubleFrom folds n true true column t) fun _ =>
    after_doubleFrom folds hn

end Piece

/-! ## 4. Bytes and plain forms -/

theorem not_mem_of_mem_splitOn {cs line : List Char} (h : line ∈ Numeral.splitOn '\n' cs) :
    '\n' ∉ line := by
  induction cs generalizing line with
  | nil =>
    obtain rfl : line = [] := by simpa [Numeral.splitOn] using h
    exact List.not_mem_nil
  | cons c cs ih =>
    rw [Numeral.splitOn] at h
    split at h
    · rcases List.mem_cons.mp h with rfl | h
      · exact List.not_mem_nil
      · exact ih h
    · rename_i hc
      cases hsplit : Numeral.splitOn '\n' cs with
      | nil =>
        obtain rfl : line = [c] := by simpa [hsplit] using h
        simpa using Ne.symm hc
      | cons first rest =>
        rw [hsplit] at h ih
        rcases List.mem_cons.mp h with rfl | h
        · exact fun h => (List.mem_cons.mp h).elim (Ne.symm hc) (ih (List.mem_cons_self ..))
        · exact ih (List.mem_cons_of_mem first h)

/-- Every line of a block is indented. -/
theorem after_literalLines {n : Nat} (hn : 0 < n) (cs : List Char) :
    Onset.other.after (literalLines n cs) = some .other := by
  have hlines : ∀ lines : List (List Char), (∀ line ∈ lines, '\n' ∉ line) →
      Onset.other.after (lines.flatMap fun l => if l.isEmpty then [] else newLine n ++ l) =
        some .other := by
    intro lines
    induction lines with
    | nil => exact fun _ => rfl
    | cons line lines ih =>
      intro h
      obtain ⟨hline, hlines⟩ := List.forall_mem_cons.mp h
      have hown : Onset.other.after (if line.isEmpty then [] else newLine n ++ line) =
          some .other := by
        split
        · rfl
        · rw [Onset.after_of_some (Onset.after_newLine hn .other)]
          exact Onset.after_other hline
      rw [List.flatMap_cons, Onset.after_of_some hown]
      exact ih hlines
  exact hlines _ fun line hline => not_mem_of_mem_splitOn hline

theorem Piece.keeps_bytes {n : Nat} (hn : 0 < n) (bs : List UInt8) :
    Keeps unmarked (bytesPiece n bs) ended := by
  have htag : Keeps unmarked (word Tag.binary.short) settled :=
    keeps_word (by decide) (by decide) (by decide)
  have hbar : Keeps unmarked (word ['|']) settled :=
    keeps_word (by decide) (by decide) (by decide)
  have hblock : Keeps settled (fun _ => (literalLines n (Base64.encode bs) ++ ['\n'], {})) ended := by
    rintro p q rfl
    refine ⟨.hyphens 0, ?_, .inr rfl⟩
    rw [Onset.after_of_some (after_literalLines hn _)]
    rfl
  rw [bytesPiece]
  split
  · exact (htag.andThen ((keeps_double true hn []).under fun _ => trivial)).imp ended_of_settled
  · exact (htag.andThen (hbar.under fun _ => trivial)).andThen hblock

/-- A text of one line that has no hyphen among its first two characters is unmarked. -/
theorem unmarked_of_head {cs : List Char} (hfeed : '\n' ∉ cs)
    (h : cs.head? ≠ some '-' ∨ cs.tail.head? ≠ some '-') : Unmarked cs := by
  refine ⟨hfeed, ?_⟩
  rintro ⟨rest, rfl⟩
  rcases h with h | h <;> exact h rfl

theorem unmarked_of_fitsPlain {cs : List Char} (h : Style.fitsPlain cs = true) : Unmarked cs := by
  obtain ⟨hshown, hstart, -, -⟩ := fitsPlain_iff.mp h
  refine ⟨fun hfeed => absurd (hshown _ hfeed) (by decide), ?_⟩
  rintro ⟨rest, rfl⟩
  exact absurd hstart Bool.false_ne_true

/-- Characters on one line of which the first is no hyphen. -/
def Plainly (cs : List Char) : Prop :=
  '\n' ∉ cs ∧ cs.head? ≠ some '-'

theorem Plainly.append {xs ys : List Char} (hx : Plainly xs) (hy : Plainly ys) :
    Plainly (xs ++ ys) := by
  refine ⟨fun h => (List.mem_append.mp h).elim hx.1 hy.1, ?_⟩
  cases xs with
  | nil => exact hy.2
  | cons x xs => exact hx.2

theorem plainly_digits {cs : List Char} (h : ∀ c ∈ cs, Pattern.isDigit c = true) : Plainly cs :=
  ⟨fun hmem => absurd (h _ hmem) (by decide), fun hhead =>
    absurd (h _ (List.mem_of_mem_head? hhead)) (by decide)⟩

theorem plainly_zeros (n : Nat) : Plainly (List.replicate n '0') :=
  plainly_digits fun c hc => by
    rw [List.eq_of_mem_replicate hc]
    decide

theorem plainly_layout (style : DoubleStyle) {d : Decimal}
    (h : ∀ c ∈ d.digits, Pattern.isDigit c = true) : Plainly (d.layout style) := by
  have hdigits : Plainly d.digits := plainly_digits h
  have htake : ∀ n, Plainly (d.digits.take n) := fun n =>
    plainly_digits fun c hc => h c (List.mem_of_mem_take hc)
  have hdrop : ∀ n, Plainly (d.digits.drop n) := fun n =>
    plainly_digits fun c hc => h c (List.mem_of_mem_drop hc)
  have hpoint : Plainly ['.'] := ⟨by decide, by decide⟩
  have hzero : Plainly ".0".toList := ⟨by decide, by decide⟩
  rw [Decimal.layout]
  split
  · split
    · have hfront : Plainly "0.".toList := ⟨by decide, by decide⟩
      exact (hfront.append (plainly_zeros _)).append hdigits
    · dsimp only
      split
      · exact (hdigits.append (plainly_zeros _)).append hzero
      · exact ((htake _).append hpoint).append (hdrop _)
  · have hfraction : Plainly (if (d.digits.drop 1).isEmpty then
        (if style.pointBeforeExponent then ".0".toList else []) else '.' :: d.digits.drop 1) := by
      split
      · split
        · exact hzero
        · exact ⟨by decide, by decide⟩
      · exact hpoint.append (hdrop 1)
    have hmark : ∀ negative : Prop, [Decidable negative] →
        Plainly ['e', if negative then '-' else '+'] := by
      intro negative _
      split <;> exact ⟨by decide, by decide⟩
    exact (((htake 1).append hfraction).append (hmark _)).append
      (plainly_digits fun c hc => isDigit_of_mem_paddedDigits hc)

theorem isDigit_of_mem_shortest {m : Nat} {e : Int} :
    ∀ c ∈ (Shortest.decimal m e).digits, Pattern.isDigit c = true := by
  intro c hc
  rw [Shortest.decimal, List.mem_reverse] at hc
  exact isDigit_of_mem_decimalDigits (List.mem_reverse.mp (List.dropWhile_subset _ hc))

/-- A sign in front leaves a text without hyphens at its start unmarked. -/
theorem Plainly.signed {cs : List Char} (h : Plainly cs) (negative : Bool) :
    Unmarked ((if negative then ['-'] else []) ++ cs) := by
  cases negative with
  | false => exact unmarked_of_head h.1 (.inl h.2)
  | true =>
    exact unmarked_of_head (fun hmem => (List.mem_cons.mp hmem).elim (by decide) h.1) (.inr h.2)

theorem unmarked_double (d : Double) : Unmarked (d.written .document) := by
  cases d with
  | nan _ =>
    have hname : Plainly DoubleStyle.document.notANumber := ⟨by decide, by decide⟩
    exact hname.signed false
  | infinite negative =>
    have hname : Plainly DoubleStyle.document.infinity := ⟨by decide, by decide⟩
    exact hname.signed negative
  | finite negative m e =>
    have hbody : Plainly (if m = 0 then "0.0".toList
        else (Shortest.decimal m e).layout .document) := by
      split
      · exact ⟨by decide, by decide⟩
      · exact plainly_layout _ isDigit_of_mem_shortest
    exact hbody.signed negative

/-- What is written for an atom other than a string and bytes. -/
theorem unmarked_plainForm (a : Atom) : Unmarked (plainForm a) := by
  have hnil : Plainly [] := ⟨by decide, by decide⟩
  cases a with
  | float d => exact unmarked_double d
  | str _ => exact hnil.signed false
  | bytes _ => exact hnil.signed false
  | null => exact unmarked_of_fitsPlain (fitsPlain_plainForm (a := .null) trivial)
  | bool b => exact unmarked_of_fitsPlain (fitsPlain_plainForm (a := .bool b) trivial)
  | int i => exact unmarked_of_fitsPlain (fitsPlain_plainForm (a := .int i) trivial)
  | day d => exact unmarked_of_fitsPlain (fitsPlain_plainForm (a := .day d) trivial)
  | moment m => exact unmarked_of_fitsPlain (fitsPlain_plainForm (a := .moment m) trivial)

namespace Piece

theorem scalarIndent_pos (indent : Option Nat) : 0 < scalarIndent indent := by
  cases indent <;> exact Nat.succ_pos _

/-- **An atom that is put apart, or that starts a line.** -/
theorem keeps_atom (spot : Spot) (indent : Option Nat) (a : Atom) :
    Keeps apart (atomPiece spot indent a) ended ∧ Keeps started (atomPiece spot indent a) unmarked := by
  have hn := scalarIndent_pos indent
  have hplain : ∀ {cs : List Char} (folds : Bool), Unmarked cs →
      Keeps apart (plainPiece folds (scalarIndent indent) cs) ended ∧
        Keeps started (plainPiece folds (scalarIndent indent) cs) unmarked := fun folds h =>
    ⟨(keeps_plain h folds hn).imp ended_of_settled, keeps_plain_key h folds hn⟩
  have hquoted : ∀ {b : Piece}, Keeps unmarked b ended →
      Keeps apart b ended ∧ Keeps started b unmarked := fun h =>
    ⟨h.under fun _ => trivial, (h.under fun _ => trivial).imp fun _ => trivial⟩
  by_cases hstr : ∃ t, a = .str t
  · obtain ⟨t, rfl⟩ := hstr
    rw [atomPiece]
    rcases Style.ofText_cases t with ⟨cs, -, hstyle, hfits⟩ | ⟨cs, -, hstyle, -⟩ | hstyle
    · rw [hstyle]
      exact hplain _ (unmarked_of_fitsPlain (Bool.and_eq_true_iff.mp hfits).1)
    · rw [hstyle]
      exact hquoted ((keeps_single _ hn cs).imp ended_of_settled)
    · rw [hstyle]
      exact hquoted ((keeps_double _ hn t).imp ended_of_settled)
  · by_cases hbytes : ∃ bs, a = .bytes bs
    · obtain ⟨bs, rfl⟩ := hbytes
      exact hquoted (keeps_bytes hn bs)
    · rw [not_exists] at hstr hbytes
      rw [atomPiece_of_form spot indent hstr hbytes]
      exact hplain _ (unmarked_plainForm a)

/-! ## 5. Nodes -/

theorem keeps_name (mark : Char) (hmark : mark ≠ '-' ∧ mark ≠ '\n') (n : Nat) :
    Keeps unmarked (word (mark :: anchorName n)) settled := by
  refine keeps_word (by simpa using hmark.1) (List.cons_ne_nil _ _) fun h => ?_
  have hname : '\n' ∉ anchorName n := by
    rw [anchorName, List.mem_cons, List.mem_cons, not_or, not_or]
    exact ⟨by decide, by decide, fun h => absurd (isDigit_of_mem_paddedDigits h) (by decide)⟩
  exact (List.mem_cons.mp h).elim hmark.2.symm hname

/-- Behind an anchor, if there is one, everything starts as it would without. -/
theorem keeps_anchor (anchor : Option Nat) : Keeps started (anchorPiece anchor) started := by
  cases anchor with
  | none => exact Keeps.nothing id
  | some n =>
    exact ((keeps_name '&' (by decide) n).under fun _ => trivial).imp fun h =>
      started_of_ended (ended_of_settled h)

theorem keeps_anchor_apart (anchor : Option Nat) : Keeps apart (anchorPiece anchor) apart := by
  cases anchor with
  | none => exact Keeps.nothing id
  | some n => exact ((keeps_name '&' (by decide) n).under fun _ => trivial).imp apart_of_settled

theorem keeps_brackets {opening closing : Char} (ho : opening ≠ '-' ∧ opening ≠ '\n')
    (hc : closing ≠ '-' ∧ closing ≠ '\n') :
    Keeps started (bracketsPiece opening closing) ended := by
  have hbracket : ∀ {c : Char}, c ≠ '-' ∧ c ≠ '\n' → ∀ needsSpace,
      Keeps unmarked (indicator [c] needsSpace false false) settled := fun hc _ =>
    keeps_indicator (by simpa using hc.1) (List.cons_ne_nil _ _) (by simpa using hc.2.symm) _ _ _
  exact (((hbracket ho true).andThen ((hbracket hc false).under fun _ => trivial)).imp
    ended_of_settled).under fun _ => trivial

/-- The indentation and the mark in front of an entry, or of a part of a pair. -/
theorem keeps_entryMark (n : Nat) : Keeps started (entryPiece n) apart :=
  (keeps_indent n).andThen keeps_hyphen

theorem keeps_partMark {c : Char} (hc : c ≠ '-' ∧ c ≠ '\n') (n : Nat) :
    Keeps started ((indent n).andThen (indicator [c] true false true)) apart :=
  (keeps_indent n).andThen (((keeps_indicator (by simpa using hc.1) (List.cons_ne_nil _ _)
    (by simpa using hc.2.symm) _ _ _).under fun _ => trivial).imp apart_of_settled)

/-- A node that can stand anywhere: put apart it is complete, and it can start a line. -/
def Stands (spot : Spot) (indent : Option Nat) (t : Written) : Prop :=
  Keeps apart (nodePiece spot indent t) ended ∧ Keeps started (nodePiece spot indent t) unmarked

theorem Stands.of_started {spot : Spot} {indent : Option Nat} {t : Written}
    (h : Keeps started (nodePiece spot indent t) ended) : Stands spot indent t :=
  ⟨h.under started_of_apart, h.imp fun _ => trivial⟩

/-- The key of a pair with its mark, or in front of its colon, and the colon. -/
theorem keeps_keyAndColon (n : Nat) {k : Written}
    (h : ∀ spot, Stands spot (some n) k) :
    Keeps started ((((keyPiece (isShortKey k) n).andThen
      (nodePiece (if isShortKey k then .key else .part) (some n) k)).andThen
      (colonPiece (isShortKey k) n))) apart := by
  cases isShortKey k with
  | true =>
    have hcolon : Keeps unmarked (indicator [':'] false false false) settled :=
      keeps_indicator (by decide) (by decide) (by decide) _ _ _
    exact (((keeps_indent n).andThen ((h .key).2.under started_of_opened)).andThen hcolon).imp
      apart_of_settled
  | false =>
    exact ((keeps_partMark (by decide) n).andThen (h .part).1).andThen
      ((keeps_partMark (by decide) n).under started_of_ended)

theorem keeps_entriesPiece_cons {n : Nat} {t : Written} {ts : List Written}
    (ht : Stands .entry (some n) t) (hts : Keeps ended (entriesPiece n ts) ended) :
    Keeps started (entriesPiece n (t :: ts)) ended := by
  rw [entriesPiece]
  exact ((keeps_entryMark n).andThen ht.1).andThen hts

theorem keeps_elementsPiece_cons {n : Nat} {t : Written} {ts : List Written}
    (ht : ∀ spot, Stands spot (some n) t) (hts : Keeps ended (elementsPiece n ts) ended) :
    Keeps started (elementsPiece n (t :: ts)) ended := by
  rw [elementsPiece]
  exact ((keeps_keyAndColon n ht).andThen (keeps_atom .part (some n) .null).1).andThen hts

theorem keeps_pairsPiece_cons {n : Nat} {k v : Written} {es : List (Written × Written)}
    (hk : ∀ spot, Stands spot (some n) k) (hv : Stands .part (some n) v)
    (hes : Keeps ended (pairsPiece n es) ended) :
    Keeps started (pairsPiece n ((k, v) :: es)) ended := by
  rw [pairsPiece]
  exact ((keeps_keyAndColon n hk).andThen hv.1).andThen hes

/-- Brackets if there is nothing to write, else a block. -/
theorem keeps_unless_empty {α : Type} {items : List α} {opening closing : Char} {block : Piece}
    (ho : opening ≠ '-' ∧ opening ≠ '\n') (hc : closing ≠ '-' ∧ closing ≠ '\n')
    (h : items ≠ [] → Keeps started block ended) :
    Keeps started (if items.isEmpty then bracketsPiece opening closing else block) ended := by
  split
  · exact keeps_brackets ho hc
  · exact h (by simpa using ‹¬ items.isEmpty = true›)

/-- The parts of a block: behind what came before, and as the start of the block. -/
def StandsAll {α : Type} (block : List α → Piece) (items : List α) : Prop :=
  Keeps ended (block items) ended ∧ (items ≠ [] → Keeps started (block items) ended)

theorem StandsAll.of_cons {α : Type} {block : List α → Piece} {item : α} {items : List α}
    (h : Keeps started (block (item :: items)) ended) : StandsAll block (item :: items) :=
  ⟨h.under started_of_ended, fun _ => h⟩

mutual

/-- **No line of a node starts with a marker**, wherever the node is written. -/
theorem stands_node (spot : Spot) (indent : Option Nat) : ∀ t : Written, Stands spot indent t
  | .back n => .of_started <| by
      rw [nodePiece]
      exact ((keeps_name '*' (by decide) n).imp ended_of_settled).under fun _ => trivial
  | .atom anchor a => by
      rw [Stands, nodePiece]
      exact ⟨(keeps_anchor_apart anchor).andThen (keeps_atom spot indent a).1,
        (keeps_anchor anchor).andThen (keeps_atom spot indent a).2⟩
  | .list anchor items => .of_started <| by
      rw [nodePiece]
      exact (keeps_anchor anchor).andThen <| keeps_unless_empty (by decide) (by decide) fun hne =>
        .withPen fun p => (stands_entries (sequenceIndent spot indent p) items).2 hne
  | .tuple anchor items => .of_started <| by
      rw [nodePiece]
      exact (keeps_anchor anchor).andThen <| keeps_unless_empty (by decide) (by decide) fun hne =>
        .withPen fun p => (stands_entries (sequenceIndent spot indent p) items).2 hne
  | .set anchor items => .of_started <| by
      have htag : Keeps started (word Tag.set.short) started :=
        ((keeps_word (by decide) (by decide) (by decide)).under fun _ => trivial).imp fun h =>
          started_of_ended (ended_of_settled h)
      rw [nodePiece]
      exact ((keeps_anchor anchor).andThen htag).andThen <|
        keeps_unless_empty (by decide) (by decide) (stands_elements (blockIndent indent) items).2
  | .map anchor entries => .of_started <| by
      rw [nodePiece]
      exact (keeps_anchor anchor).andThen <|
        keeps_unless_empty (by decide) (by decide) (stands_pairs (blockIndent indent) entries).2

theorem stands_entries (n : Nat) : ∀ ts : List Written, StandsAll (entriesPiece n) ts
  | [] => ⟨Keeps.nothing id, fun hne => absurd rfl hne⟩
  | t :: ts => .of_cons <|
      keeps_entriesPiece_cons (stands_node .entry (some n) t) (stands_entries n ts).1

theorem stands_elements (n : Nat) : ∀ ts : List Written, StandsAll (elementsPiece n) ts
  | [] => ⟨Keeps.nothing id, fun hne => absurd rfl hne⟩
  | t :: ts => .of_cons <|
      keeps_elementsPiece_cons (fun spot => stands_node spot (some n) t) (stands_elements n ts).1

theorem stands_pairs (n : Nat) : ∀ es : List (Written × Written), StandsAll (pairsPiece n) es
  | [] => ⟨Keeps.nothing id, fun hne => absurd rfl hne⟩
  | (k, v) :: es => .of_cons <|
      keeps_pairsPiece_cons (fun spot => stands_node spot (some n) k)
        (stands_node .part (some n) v) (stands_pairs n es).1

end

end Piece

/-- What closes a document. -/
theorem Piece.keeps_stop (openEnded : Bool) : Keeps opened (if openEnded then
    (indicator "...".toList true false false).andThen (indent 0) else nothing) unmarked := by
  split
  · have hdots : Keeps unmarked (indicator "...".toList true false false) started :=
      (keeps_indicator (by decide) (by decide) (by decide) _ _ _).imp fun h =>
        started_of_ended (ended_of_settled h)
    exact ((hdots.under fun _ => trivial).andThen (keeps_indent 0)).imp fun _ => trivial
  · exact Keeps.nothing fun _ => trivial

/-- **Only the first line of a document starts with a marker**, whatever the record holds. -/
theorem unmarked_print (t : Written) : ∃ first rest, (print t).splitOn '\n' = first :: rest ∧
    List.replicate 3 '-' <+: first ∧ ∀ line ∈ rest, ¬ List.replicate 3 '-' <+: line := by
  open Piece in
  have hbehind := (((stands_node .root none t).1.andThen
    ((keeps_indent 0).under started_of_ended)).andThen (keeps_stop (isOpenEnded t)))
  obtain ⟨q, hafter, -⟩ := hbehind ⟨3, false, false⟩ .other (.inl rfl)
  have hprint : print t = List.replicate 3 '-' ++ (((nodePiece .root none t).andThen
      (Piece.indent 0)).andThen (if isOpenEnded t then
        (Piece.indicator "...".toList true false false).andThen (Piece.indent 0)
          else Piece.nothing) ⟨3, false, false⟩).1 := rfl
  obtain ⟨first, rest, hsplit⟩ := exists_splitOn '\n' (print t)
  have hfirst : List.replicate 3 '-' <+: first := by
    obtain ⟨line, lines, hlines⟩ := exists_splitOn '\n' ((((nodePiece .root none t).andThen
      (Piece.indent 0)).andThen (if isOpenEnded t then
        (Piece.indicator "...".toList true false false).andThen (Piece.indent 0)
          else Piece.nothing) ⟨3, false, false⟩).1)
    rw [hprint, splitOn_append_of_not_mem (by decide), hlines] at hsplit
    exact ⟨line, (List.cons.inj hsplit).1⟩
  refine ⟨first, rest, hsplit, hfirst, ?_⟩
  have hall : Onset.other.after (print t) = some q := by
    rw [hprint, Onset.after_of_some (Onset.after_other (by decide))]
    exact hafter
  exact (Onset.unmarked_of_after hall hsplit).1

end Conform.Markup

namespace Conform

/-- A document of a graph is a printed one. -/
theorem Graph.exists_print_of_dump {g : Graph} {r : Ref} {cs : List Char}
    (h : g.dump r = .ok cs) : ∃ t, cs = Markup.print t := by
  rw [Graph.dump] at h
  split at h
  · exact ⟨_, (Except.ok.inj h).symm⟩
  · cases h

end Conform
