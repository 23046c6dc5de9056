import Mathlib.Data.List.Basic
import Mathlib.Logic.Function.Basic
import Conform.Report

/-!
# Nested reports

What a report says is a tree: single lines, and parts under an introduction. A report is built from
it part by part, with a report of its own for every introduction, which is nested once it is
complete. Every nesting copies the lines so far behind two more spaces, so in the end every text
stands behind two spaces for every introduction above it (`lines_build`), and as long as no text
starts with a space itself, nothing is lost on the way (`eq_of_lines`). An introduction of the
report itself is rendered as if the report were nested under it (`render_nest`).
-/

namespace Conform.Report

/-! ## 1. What a report says -/

/-- A part of a report: a line, or an introduction with the parts under it. -/
inductive Part where
  | line (text : Text)
  | block (introduction : Text) (parts : List Part)
  deriving Inhabited

namespace Part

mutual

/-- The texts of a part from the top down, each with the number of introductions above it. -/
def entries (depth : Nat) : Part → List (Nat × Text)
  | .line text => [(depth, text)]
  | .block introduction parts => (depth, introduction) :: entriesAll (depth + 1) parts

/-- The texts of some parts. -/
def entriesAll (depth : Nat) : List Part → List (Nat × Text)
  | [] => []
  | p :: ps => entries depth p ++ entriesAll depth ps

end

/-- A text behind two spaces for every introduction above it. -/
def laidOut (entry : Nat × Text) : Text :=
  List.replicate (2 * entry.1) (.char ' ') ++ entry.2

/-- The lines of some parts. -/
def lines (parts : List Part) : List Text :=
  (entriesAll 0 parts).map laidOut

/-- Does a text start with a space? -/
def startsSpaced (text : Text) : Prop :=
  text.head? = some (.char ' ')

mutual

/-- No text starts with a space, and there is something under every introduction. -/
def Tidy : Part → Prop
  | .line text => ¬ startsSpaced text
  | .block introduction parts => ¬ startsSpaced introduction ∧ parts ≠ [] ∧ TidyAll parts

/-- All of some parts are tidy. -/
def TidyAll : List Part → Prop
  | [] => True
  | p :: ps => Tidy p ∧ TidyAll ps

end

/-! ## 2. Nesting and depth -/

mutual

theorem laidOut_entries_succ (depth : Nat) : ∀ p : Part,
    (entries (depth + 1) p).map laidOut = ((entries depth p).map laidOut).map (indentation ++ ·)
  | .line _ => rfl
  | .block _ parts => congrArg (List.cons _) (laidOut_entriesAll_succ (depth + 1) parts)

/-- One introduction more puts all lines two spaces further in. -/
theorem laidOut_entriesAll_succ (depth : Nat) : ∀ ps : List Part,
    (entriesAll (depth + 1) ps).map laidOut =
      ((entriesAll depth ps).map laidOut).map (indentation ++ ·)
  | [] => rfl
  | p :: ps => by
      simp only [entriesAll, List.map_append]
      rw [laidOut_entries_succ depth p, laidOut_entriesAll_succ depth ps]

end

theorem lines_nil : lines [] = [] := rfl

theorem lines_line (text : Text) (ps : List Part) : lines (.line text :: ps) = text :: lines ps :=
  rfl

theorem lines_block (introduction : Text) (parts ps : List Part) :
    lines (.block introduction parts :: ps) =
      introduction :: ((lines parts).map (indentation ++ ·) ++ lines ps) := by
  rw [lines, entriesAll, entries, List.map_append, List.map_cons, laidOut_entriesAll_succ]
  rfl

end Part

/-! ## 3. Building -/

/-- Reports that are told apart by numbers. -/
abbrev Shelf := Nat → Report

/-- What is done to one of the reports on a shelf. -/
inductive Edit where
  /-- Puts an empty report in its place. -/
  | start (n : Nat)
  | add (n : Nat) (line : Text)
  /-- Nests another report in it. -/
  | nest (n : Nat) (introduction : Text) (inner : Nat)

/-- The report that an edit is done to. -/
def Edit.target : Edit → Nat
  | .start n => n
  | .add n _ => n
  | .nest n _ _ => n

/-- The shelf after an edit. -/
def Edit.apply (shelf : Shelf) : Edit → Shelf
  | .start n => Function.update shelf n {}
  | .add n line => Function.update shelf n ((shelf n).add line)
  | .nest n introduction inner =>
    Function.update shelf n ((shelf n).nest introduction (shelf inner))

/-- The shelf after some edits, one after the other. -/
def Shelf.after (shelf : Shelf) (edits : List Edit) : Shelf :=
  edits.foldl Edit.apply shelf

/-- An edit leaves all other reports as they are, also one that it nests. -/
theorem Edit.apply_of_ne {shelf : Shelf} {e : Edit} {k : Nat} (h : k ≠ e.target) :
    e.apply shelf k = shelf k := by
  cases e <;> exact Function.update_of_ne h _ _

namespace Part

mutual

/-- The edits that add a part to a report: what is under an introduction is put together in the
    next report first. -/
def edits (n : Nat) : Part → List Edit
  | .line text => [.add n text]
  | .block introduction parts =>
    .start (n + 1) :: (editsAll (n + 1) parts ++ [.nest n introduction (n + 1)])

/-- The edits that add some parts to a report. -/
def editsAll (n : Nat) : List Part → List Edit
  | [] => []
  | p :: ps => edits n p ++ editsAll n ps

end

/-- The edits that build a report of some parts. -/
def build (n : Nat) (parts : List Part) : List Edit :=
  .start n :: editsAll n parts

/-- A shelf that has got these lines behind those of a report, with the reports in front of it as
    they were. The reports behind it are scratch. -/
def Grown (n : Nat) (more : List Text) (shelf shelf' : Shelf) : Prop :=
  shelf' n = { shelf n with lines := (shelf n).lines ++ more } ∧ ∀ k < n, shelf' k = shelf k

theorem Grown.refl (n : Nat) (shelf : Shelf) : Grown n [] shelf shelf :=
  ⟨by rw [List.append_nil], fun _ _ => rfl⟩

theorem Grown.trans {n : Nat} {xs ys : List Text} {a b c : Shelf} (hab : Grown n xs a b)
    (hbc : Grown n ys b c) : Grown n (xs ++ ys) a c := by
  refine ⟨?_, fun k hk => (hbc.2 k hk).trans (hab.2 k hk)⟩
  rw [hbc.1, hab.1, List.append_assoc]

theorem grown_add (shelf : Shelf) (n : Nat) (text : Text) :
    Grown n [text] shelf ((Edit.add n text).apply shelf) :=
  ⟨Function.update_self .., fun _ hk => Edit.apply_of_ne (Nat.ne_of_lt hk)⟩

/-- Building a report behind another one and nesting it there. -/
theorem grown_nest {shelf built : Shelf} {n : Nat} {more : List Text} (introduction : Text)
    (h : Grown (n + 1) more ((Edit.start (n + 1)).apply shelf) built) :
    Grown n (introduction :: more.map (indentation ++ ·)) shelf
      ((Edit.nest n introduction (n + 1)).apply built) := by
  have hinner : (built (n + 1)).lines = more := by
    rw [h.1, Edit.apply, Function.update_self]
    exact List.nil_append more
  have hfront : ∀ k ≤ n, built k = shelf k := fun k hk =>
    (h.2 k (Nat.lt_succ_of_le hk)).trans (Edit.apply_of_ne (Nat.ne_of_lt (Nat.lt_succ_of_le hk)))
  refine ⟨?_, fun k hk => ?_⟩
  · rw [Edit.apply, Function.update_self, nest, hinner, hfront n (Nat.le_refl n)]
  · rw [Edit.apply_of_ne (Nat.ne_of_lt hk), hfront k (Nat.le_of_lt hk)]

mutual

theorem grown_edits (n : Nat) (shelf : Shelf) : ∀ p : Part,
    Grown n (lines [p]) shelf (shelf.after (edits n p))
  | .line text => grown_add shelf n text
  | .block introduction parts => by
      have hnest := grown_nest introduction
        (grown_editsAll (n + 1) ((Edit.start (n + 1)).apply shelf) parts)
      rw [lines_block, lines_nil, List.append_nil, edits, Shelf.after, List.foldl_cons,
        List.foldl_append]
      exact hnest

/-- **The edits for some parts add their lines**, whatever the reports say before. -/
theorem grown_editsAll (n : Nat) (shelf : Shelf) : ∀ ps : List Part,
    Grown n (lines ps) shelf (shelf.after (editsAll n ps))
  | [] => Grown.refl n shelf
  | p :: ps => by
      have hlines : lines (p :: ps) = lines [p] ++ lines ps := by
        simp [lines, entriesAll]
      rw [hlines, editsAll, Shelf.after, List.foldl_append]
      exact (grown_edits n shelf p).trans (grown_editsAll n _ ps)

end

theorem lines_build (n : Nat) (shelf : Shelf) (parts : List Part) :
    shelf.after (build n parts) n = { lines := lines parts } := by
  rw [build, Shelf.after, List.foldl_cons]
  refine (grown_editsAll n _ parts).1.trans ?_
  rw [Edit.apply, Function.update_self]
  rfl

/-! ## 4. Reading the parts off the lines -/

theorem startsSpaced_indentation (text : Text) : startsSpaced (indentation ++ text) := rfl

/-- The first of the lines of tidy parts does not start with a space. -/
theorem not_startsSpaced_head {ps : List Part} (h : TidyAll ps) :
    ∀ line ∈ (lines ps).head?, ¬ startsSpaced line := by
  match ps with
  | [] => simp [lines_nil]
  | .line text :: ps => simpa [lines_line, Tidy] using h.1
  | .block introduction parts :: ps => simpa [lines_block] using h.1.1

theorem lines_ne_nil {ps : List Part} (h : ps ≠ []) : lines ps ≠ [] := by
  match ps with
  | [] => exact absurd rfl h
  | .line text :: ps => exact List.cons_ne_nil _ _
  | .block introduction parts :: ps =>
    rw [lines_block]
    exact List.cons_ne_nil _ _

/-- Where the indented lines end is the same in both, since the next line does not start with a
    space. -/
theorem split_indented {xs xs' ys ys' : List Text} (hy : ∀ line ∈ ys.head?, ¬ startsSpaced line)
    (hy' : ∀ line ∈ ys'.head?, ¬ startsSpaced line)
    (h : xs.map (indentation ++ ·) ++ ys = xs'.map (indentation ++ ·) ++ ys') :
    xs = xs' ∧ ys = ys' := by
  induction xs generalizing xs' with
  | nil =>
    cases xs' with
    | nil => exact ⟨rfl, h⟩
    | cons x' xs' =>
      obtain rfl : ys = (indentation ++ x') :: (xs'.map (indentation ++ ·) ++ ys') := h
      exact absurd (startsSpaced_indentation x') (hy _ rfl)
  | cons x xs ih =>
    cases xs' with
    | nil =>
      obtain rfl : (indentation ++ x) :: (xs.map (indentation ++ ·) ++ ys) = ys' := h
      exact absurd (startsSpaced_indentation x) (hy' _ rfl)
    | cons x' xs' =>
      obtain ⟨hhead, htail⟩ := List.cons.inj h
      obtain ⟨rfl, rfl⟩ := ih htail
      exact ⟨by rw [List.append_cancel_left hhead], rfl⟩

/-- The first part is read off the first lines: it is a line if no indented one follows. -/
theorem not_line_and_block {ps parts qs : List Part} (hps : TidyAll ps) (hparts : parts ≠ [])
    (h : lines ps = (lines parts).map (indentation ++ ·) ++ lines qs) : False := by
  cases hlines : lines parts with
  | nil => exact lines_ne_nil hparts hlines
  | cons line more =>
    rw [hlines] at h
    exact not_startsSpaced_head hps (indentation ++ line) (by rw [h]; rfl)
      (startsSpaced_indentation line)

/-- **Tidy parts are determined by their lines.** -/
theorem eq_of_lines : ∀ {ps qs : List Part}, TidyAll ps → TidyAll qs → lines ps = lines qs → ps = qs
  | [], [], _, _, _ => rfl
  | [], q :: qs, _, _, h => absurd h.symm (lines_ne_nil (List.cons_ne_nil q qs))
  | p :: ps, [], _, _, h => absurd h (lines_ne_nil (List.cons_ne_nil p ps))
  | .line text :: ps, .line text' :: qs, hp, hq, h => by
      rw [lines_line, lines_line] at h
      obtain ⟨rfl, hrest⟩ := List.cons.inj h
      rw [eq_of_lines hp.2 hq.2 hrest]
  | .line text :: ps, .block introduction parts :: qs, hp, hq, h => by
      rw [lines_line, lines_block] at h
      exact (not_line_and_block hp.2 hq.1.2.1 (List.cons.inj h).2).elim
  | .block introduction parts :: ps, .line text :: qs, hp, hq, h => by
      rw [lines_line, lines_block] at h
      exact (not_line_and_block hq.2 hp.1.2.1 (List.cons.inj h).2.symm).elim
  | .block introduction parts :: ps, .block introduction' parts' :: qs, hp, hq, h => by
      rw [lines_block, lines_block] at h
      obtain ⟨rfl, hrest⟩ := List.cons.inj h
      obtain ⟨hparts, hmore⟩ :=
        split_indented (not_startsSpaced_head hp.2) (not_startsSpaced_head hq.2) hrest
      rw [eq_of_lines hp.1.2.2 hq.1.2.2 hparts, eq_of_lines hp.2 hq.2 hmore]
termination_by ps => sizeOf ps

end Part

/-! ## 5. Rendering -/

theorem join_cons (feed line : Text) (lines : List Text) :
    Text.join feed (line :: lines) = line ++ lines.flatMap (feed ++ ·) := by
  induction lines generalizing line with
  | nil => simp [Text.join]
  | cons next lines ih =>
    have ih' : List.intercalate feed (next :: lines) = next ++ lines.flatMap (feed ++ ·) := ih next
    rw [Text.join, List.intercalate_cons_cons, ih', List.flatMap_cons]
    simp only [List.append_assoc]

theorem join_ne_nil {feed : Text} {lines : List Text} (hl : lines ≠ [])
    (h : ∀ line ∈ lines, line ≠ []) : Text.join feed lines ≠ [] := by
  obtain ⟨line, rest, rfl⟩ := List.exists_cons_of_ne_nil hl
  rw [join_cons]
  exact List.append_ne_nil_of_left_ne_nil (h line List.mem_cons_self) _

/-- Under an introduction, every line of a report stands on a line of its own behind the
    indentation. -/
theorem render_of_introduction {r : Report} (hi : r.introduction ≠ []) (hl : r.lines ≠ []) :
    r.render = r.introduction ++
      r.lines.flatMap fun line => Text.ofChars ['\n'] ++ indentation ++ line := by
  obtain ⟨line, lines, hlines⟩ := List.exists_cons_of_ne_nil hl
  rw [render, if_neg (by simpa using hi), hlines, join_cons, List.flatMap_cons]
  simp only [List.append_assoc]

/-- **An introduction is rendered as if the report stood under it in another one.** -/
theorem render_nest {r : Report} {introduction : Text} (hlines : r.lines ≠ [])
    (hintroduction : introduction ≠ []) :
    ({ r with introduction } : Report).render = (nest {} introduction r).render := by
  have hinner : (nest {} introduction r).render =
      Text.join (Text.ofChars ['\n']) (introduction :: r.lines.map (indentation ++ ·)) := rfl
  rw [render_of_introduction (r := { r with introduction }) hintroduction hlines, hinner,
    join_cons, List.flatMap_map]
  simp only [List.append_assoc]

/-! ## 6. What nesting keeps -/

/-- **Nesting is faithful and can be undone.** The edits for some parts build a report of their
    texts from the top down, each behind two spaces for every introduction above it, and leave the
    reports in front as they were. An introduction is rendered as if the report were nested under
    it. If no text starts with a space and nothing is missing under an introduction, the lines
    determine the parts. Nesting a report leaves it as it was and does not look at its own
    introduction. -/
theorem nesting_is_faithful :
    (∀ (shelf : Shelf) (n : Nat) (parts : List Part),
      shelf.after (Part.build n parts) n = { lines := (Part.entriesAll 0 parts).map Part.laidOut } ∧
        ∀ k < n, shelf.after (Part.build n parts) k = shelf k) ∧
    (∀ (r : Report) (introduction : Text), r.lines ≠ [] → introduction ≠ [] →
      ({ r with introduction } : Report).render = (nest {} introduction r).render) ∧
    (∀ ps qs : List Part, Part.TidyAll ps → Part.TidyAll qs →
      (Part.entriesAll 0 ps).map Part.laidOut = (Part.entriesAll 0 qs).map Part.laidOut → ps = qs) ∧
    ∀ (shelf : Shelf) (n inner : Nat) (introduction own : Text), inner ≠ n →
      (Edit.nest n introduction inner).apply shelf inner = shelf inner ∧
      (Edit.nest n introduction inner).apply
          (Function.update shelf inner { shelf inner with introduction := own }) n =
        (Edit.nest n introduction inner).apply shelf n := by
  refine ⟨fun shelf n parts => ⟨Part.lines_build n shelf parts, fun k hk => ?_⟩,
    fun r introduction => render_nest, fun ps qs => Part.eq_of_lines,
    fun shelf n inner introduction own hne => ⟨Edit.apply_of_ne hne, ?_⟩⟩
  · exact ((Part.grown_editsAll n _ parts).2 k hk).trans (Edit.apply_of_ne (Nat.ne_of_lt hk))
  · simp only [Edit.apply, Function.update_self, Function.update_of_ne hne.symm]
    rfl

/-- An introduction with a line of two and another introduction under it. -/
def sampleParts : List Part :=
  [.block (Text.ofString "a") [.line (Text.ofString "b\nc"), .block [] [.line (Text.ofString "d")]]]

theorem sampleParts_are_determined : Part.TidyAll sampleParts ∧
    (∀ ps, Part.TidyAll ps → (Part.entriesAll 0 sampleParts).map Part.laidOut =
      (Part.entriesAll 0 ps).map Part.laidOut → sampleParts = ps) ∧
    (⟨Text.ofString "a", [Text.ofString "b"]⟩ : Report).render =
      (nest {} (Text.ofString "a") ⟨[], [Text.ofString "b"]⟩).render ∧
    (Edit.nest 0 [] 1).apply (fun _ => {}) 1 = {} := by
  have htidy : Part.TidyAll sampleParts := by
    simp [sampleParts, Part.TidyAll, Part.Tidy, Part.startsSpaced, Text.ofString, Text.ofChars]
  exact ⟨htidy, fun ps hps => nesting_is_faithful.2.2.1 sampleParts ps htidy hps,
    nesting_is_faithful.2.1 ⟨[], [Text.ofString "b"]⟩ (Text.ofString "a") (by decide) (by decide),
    (nesting_is_faithful.2.2.2 (fun _ => {}) 0 1 [] [] (by decide)).1⟩

end Conform.Report
