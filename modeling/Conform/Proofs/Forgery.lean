import Mathlib.Algebra.GroupWithZero.Nat
import Conform.Proofs.Markup.Markers
import Conform.Proofs.Rejections
import Conform.Proofs.Settling
import Conform.Proofs.TextLines

/-!
# Blocks in a rendered report

Whoever reads a rendered report finds the blocks by their titles: a line that is the title and
nothing else, over a line that starts with the marker of a document. This file counts the titles in
a report. A record as a document adds none, since only its first line starts with a marker, but the
names of a record stand in the lines about it as they are: a name that runs over several lines can
hold a title. So the titles are as many as the elements with violations, and those in their names
(`titles_of_report`).
-/

namespace Conform

/-! ## 1. Titles -/

/-- The title of a block. -/
def blockTitle : Text := Text.ofString "Malformed object:"

/-- Does a line start with the marker of a document? -/
def startsMarked (line : Text) : Prop :=
  Text.ofString "---" <+: line

instance (line : Text) : Decidable (startsMarked line) :=
  inferInstanceAs (Decidable (_ <+: _))

/-- How many of some lines are the title of a block over a line that starts with a marker. -/
def titlesAmong : List Text → Nat
  | line :: next :: rest =>
    (if line = blockTitle ∧ startsMarked next then 1 else 0) + titlesAmong (next :: rest)
  | _ => 0

/-- How many titles there are in a text. -/
def Text.titles (t : Text) : Nat :=
  titlesAmong t.lines

/-- If the second part does not start with a marker, no title is made where two parts meet. -/
theorem titlesAmong_append {xs ys : List Text} (h : ∀ y ∈ ys.head?, ¬ startsMarked y) :
    titlesAmong (xs ++ ys) = titlesAmong xs + titlesAmong ys := by
  match xs with
  | [] => simp [titlesAmong]
  | [x] =>
    cases ys with
    | nil => rfl
    | cons y ys => simp [titlesAmong, h y rfl]
  | x :: x' :: xs =>
    have hrest : titlesAmong (x' :: xs ++ ys) = titlesAmong (x' :: xs) + titlesAmong ys :=
      titlesAmong_append h
    simp only [List.cons_append, titlesAmong] at hrest ⊢
    omega

theorem titlesAmong_eq_zero {xs : List Text} (h : ∀ x ∈ xs.tail, ¬ startsMarked x) :
    titlesAmong xs = 0 := by
  match xs with
  | [] => rfl
  | [x] => rfl
  | x :: x' :: xs =>
    obtain ⟨hx, hxs⟩ := List.forall_mem_cons.mp h
    have hrest : titlesAmong (x' :: xs) = 0 := titlesAmong_eq_zero hxs
    rw [titlesAmong, if_neg fun hboth => hx hboth.2, hrest]

theorem titlesAmong_cons_of_ne {x : Text} (h : x ≠ blockTitle) (xs : List Text) :
    titlesAmong (x :: xs) = titlesAmong xs := by
  cases xs with
  | nil => rfl
  | cons x' xs => simp [titlesAmong, h]

/-- Of the last line it only matters whether it starts with a marker. -/
theorem titlesAmong_concat_congr {x y : Text} (h : startsMarked x ↔ startsMarked y)
    (xs : List Text) : titlesAmong (xs ++ [x]) = titlesAmong (xs ++ [y]) := by
  match xs with
  | [] => rfl
  | [a] => simp [titlesAmong, h]
  | a :: a' :: xs =>
    have hrest : titlesAmong (a' :: xs ++ [x]) = titlesAmong (a' :: xs ++ [y]) :=
      titlesAmong_concat_congr h (a' :: xs)
    simp only [List.cons_append, titlesAmong] at hrest ⊢
    rw [hrest]

theorem titlesAmong_eq_zero_iff {xs : List Text} : titlesAmong xs = 0 ↔
    ∀ front next rest, xs = front ++ blockTitle :: next :: rest → ¬ startsMarked next := by
  constructor
  · rintro hzero front next rest rfl hnext
    induction front with
    | nil => simp [titlesAmong, hnext] at hzero
    | cons x front ih =>
      cases front <;> exact ih (Nat.eq_zero_of_add_eq_zero_left hzero)
  · intro hall
    match xs with
    | [] => rfl
    | [x] => rfl
    | x :: x' :: xs =>
      have hrest : titlesAmong (x' :: xs) = 0 := titlesAmong_eq_zero_iff.mpr
        fun front next rest heq => hall (x :: front) next rest (congrArg (x :: ·) heq)
      have hfirst : ¬ (x = blockTitle ∧ startsMarked x') := by
        rintro ⟨rfl, hx'⟩
        exact hall [] x' xs rfl hx'
      rw [titlesAmong, if_neg hfirst, hrest]

/-- The first line of a text starts with a marker only if the text does. -/
theorem startsMarked_of_lines {t first : Text} {rest : List Text} (h : t.lines = first :: rest)
    (hfirst : startsMarked first) : startsMarked t := by
  have ht : t = Text.join [.char '\n'] (first :: rest) := by
    rw [← h, Text.join, Text.lines, List.intercalate_splitOn]
  rw [ht, Report.join_cons]
  exact hfirst.trans (List.prefix_append first _)

/-- **Titles add up** over texts that are joined by line feeds, if none of them starts with a
    marker. -/
theorem titles_join {ts : List Text} (hne : ts ≠ []) (h : ∀ t ∈ ts, ¬ startsMarked t) :
    (Text.join (Text.ofChars ['\n']) ts).titles = (ts.map Text.titles).sum := by
  rw [Text.titles, Text.lines_join hne]
  clear hne
  induction ts with
  | nil => rfl
  | cons t ts ih =>
    obtain ⟨ht, hts⟩ := List.forall_mem_cons.mp h
    have hhead : ∀ y ∈ (ts.flatMap Text.lines).head?, ¬ startsMarked y := by
      intro y hy
      cases ts with
      | nil => cases hy
      | cons u us =>
        obtain ⟨first, rest, hlines⟩ := exists_splitOn (.char '\n') u
        have hlines' : u.lines = first :: rest := hlines
        rw [List.flatMap_cons, hlines'] at hy
        obtain rfl : first = y := Option.some.inj hy
        exact fun hy => h u (by simp) (startsMarked_of_lines hlines' hy)
    rw [List.flatMap_cons, titlesAmong_append hhead, ih hts, List.map_cons, List.sum_cons]
    rfl

/-! ## 2. The title of a block -/

theorem startsMarked_ofChars {cs : List Char} :
    startsMarked (Text.ofChars cs) ↔ List.replicate 3 '-' <+: cs :=
  List.prefix_map_iff_of_injective fun _ _ => CodePoint.char.inj

/-- **A block has one title**, whatever the record holds. -/
theorem titles_heading {g : Graph} {r : Ref} {dump : List Char} (h : g.dump r = .ok dump) :
    (Schema.blockHeading dump).titles = 1 := by
  obtain ⟨first, rest, hlines, hfirst, hrest⟩ : ∃ first rest, dump.splitOn '\n' = first :: rest ∧
      List.replicate 3 '-' <+: first ∧ ∀ line ∈ rest, ¬ List.replicate 3 '-' <+: line := by
    obtain ⟨t, rfl⟩ := Graph.exists_print_of_dump h
    exact Markup.unmarked_print t
  have hheading : (Schema.blockHeading dump).lines =
      blockTitle :: Text.ofChars first :: rest.map Text.ofChars := by
    have htitle : Text.ofString "Malformed object:\n" = blockTitle ++ Text.ofChars ['\n'] := by
      decide
    have hjoin : Schema.blockHeading dump =
        Text.join (Text.ofChars ['\n']) [blockTitle, Text.ofChars dump] := by
      rw [Schema.blockHeading, htitle, Report.join_cons]
      simp
    rw [hjoin, Text.lines_join (List.cons_ne_nil _ _), List.flatMap_cons, List.flatMap_singleton,
      Text.lines_ofChars, hlines]
    rfl
  have hnone : titlesAmong (Text.ofChars first :: rest.map Text.ofChars) = 0 := by
    refine titlesAmong_eq_zero fun line hline => ?_
    obtain ⟨cs, hcs, rfl⟩ := List.mem_map.mp hline
    exact fun hmarked => hrest cs hcs (startsMarked_ofChars.mp hmarked)
  rw [Text.titles, hheading, titlesAmong, if_pos ⟨rfl, startsMarked_ofChars.mpr hfirst⟩, hnone]

/-! ## 3. Titles in names -/

theorem startsMarked_append_iff {line back : Text} (h : ∀ p ∈ back.head?, p ≠ .char '-') :
    startsMarked (line ++ back) ↔ startsMarked line := by
  refine ⟨fun hmarked => ?_, fun hmarked => hmarked.trans (List.prefix_append line back)⟩
  rcases List.prefix_or_prefix_of_prefix hmarked (List.prefix_append line back) with hl | ⟨more, hl⟩
  · exact hl
  · cases more with
    | nil => exact ⟨[], by rw [← hl, List.append_nil, List.append_nil]⟩
    | cons p more =>
      -- the line is a part of the marker, so the marker ends in what stands behind the line
      obtain ⟨rest, hrest⟩ := hmarked
      rw [← hl, List.append_assoc, List.append_cancel_left_eq] at hrest
      have hp : p ∈ Text.ofString "---" := hl ▸ List.mem_append_right line List.mem_cons_self
      exact absurd (by simpa [Text.ofString, Text.ofChars] using hp) (h p (by rw [← hrest]; rfl))

/-- Behind a space and in front of what is no marker, a name adds the titles behind its first
    line. -/
theorem titles_framed {front name back : Text} (hfront : .char '\n' ∉ front)
    (hspace : Report.Part.startsSpaced front) (hback : .char '\n' ∉ back)
    (hdash : ∀ p ∈ back.head?, p ≠ .char '-') :
    (front ++ name ++ back).titles = titlesAmong name.lines.tail := by
  obtain ⟨init, last, hname, hmore⟩ := exists_splitOn_append hback name
  rw [Text.titles, Text.lines, Text.lines, List.append_assoc, splitOn_append_of_not_mem hfront,
    hname, hmore]
  obtain ⟨own, rfl⟩ : ∃ own, front = .char ' ' :: own := by
    cases front with
    | nil => cases hspace
    | cons p own => exact ⟨own, by rw [Option.some.inj hspace]⟩
  have hother : ∀ line : Text, .char ' ' :: own ++ line ≠ blockTitle := fun line heq => by
    cases (List.cons.inj heq).1
  cases init with
  | nil => exact titlesAmong_cons_of_ne (hother _) []
  | cons first init =>
    exact (titlesAmong_cons_of_ne (hother _) _).trans
      (titlesAmong_concat_congr (startsMarked_append_iff hdash) init)

namespace Schema

/-- What a violation says of the record or of the schema as it is. -/
def Violation.shownName : Violation → Text
  | .notARecord _ => []
  | .missingKey name => name
  | .wrongType name _ _ => name.shown?.getD []
  | .unknownField name => name.shown?.getD []

/-- How many titles the name in a violation holds behind its first line. -/
def Violation.forged (v : Violation) : Nat :=
  titlesAmong v.shownName.lines.tail

/-- A text holds a title behind its first line. -/
def HoldsTitle (t : Text) : Prop :=
  ∃ first front next rest, t.lines = first :: front ++ blockTitle :: next :: rest ∧
    startsMarked next

theorem Violation.forged_eq_zero_iff {v : Violation} :
    v.forged = 0 ↔ ¬ HoldsTitle v.shownName := by
  obtain ⟨own, behind, hlines⟩ := exists_splitOn (.char '\n') v.shownName
  have hlines' : v.shownName.lines = own :: behind := hlines
  rw [forged, hlines', List.tail_cons, titlesAmong_eq_zero_iff]
  constructor
  · rintro hnone ⟨first, front, next, rest, heq, hnext⟩
    rw [hlines', List.cons_append] at heq
    exact hnone front next rest (List.cons.inj heq).2 hnext
  · rintro hnot front next rest rfl hnext
    exact hnot ⟨own, front, next, rest, hlines', hnext⟩

theorem isShown_kindName (k : Kind) : ∀ c ∈ k.name.toList, Markup.Style.isShown c = true := by
  cases k <;> exact List.all_eq_true.mp (by decide)

theorem isShown_expected (t : PropertyType) :
    ∀ c ∈ (if t = .boolean then "boolean" else "of type " ++ t.name).toList,
      Markup.Style.isShown c = true := by
  cases t <;> exact List.all_eq_true.mp (by decide)

/-- The line of a violation is the name between words that are shown as they are. -/
theorem Violation.line?_framed {v : Violation} {line : Text} (h : v.line? = some line) :
    ∃ front back, line = Text.ofChars front ++ v.shownName ++ Text.ofChars back ∧
      (∀ c ∈ front, Markup.Style.isShown c = true) ∧
      (∀ c ∈ back, Markup.Style.isShown c = true) ∧ ∀ c ∈ back.head?, c ≠ '-' := by
  cases v with
  | notARecord k =>
    cases h
    refine ⟨("object: should be of type " ++ Kind.hash.name ++ ", but is of type " ++
      k.name).toList, [], by simp [shownName, Text.ofString, Text.ofChars], ?_, by simp, by simp⟩
    rw [String.toList_append]
    exact List.forall_mem_append.mpr ⟨List.all_eq_true.mp (by decide), isShown_kindName k⟩
  | missingKey name =>
    cases h
    exact ⟨"missing primary key field ".toList, ":".toList, rfl,
      List.all_eq_true.mp (by decide), List.all_eq_true.mp (by decide), by simp⟩
  | wrongType name expected actual =>
    obtain ⟨shown, hshown, rfl⟩ := Option.map_eq_some_iff.mp h
    refine ⟨[], (": should be " ++ (if expected = .boolean then "boolean" else
      "of type " ++ expected.name) ++ ", but is of type " ++ actual.name).toList, ?_,
      fun _ hc => absurd hc List.not_mem_nil, ?_, ?_⟩
    · rw [shownName, hshown]
      rfl
    · simp only [String.toList_append, List.forall_mem_append]
      exact ⟨⟨⟨List.all_eq_true.mp (by decide), by simpa using isShown_expected expected⟩,
        List.all_eq_true.mp (by decide)⟩, isShown_kindName actual⟩
    · simp [String.toList_append]
  | unknownField name =>
    obtain ⟨shown, hshown, rfl⟩ := Option.map_eq_some_iff.mp h
    refine ⟨"unknown field ".toList, ":".toList, ?_, List.all_eq_true.mp (by decide),
      List.all_eq_true.mp (by decide), by simp⟩
    rw [shownName, hshown]
    rfl

theorem notMem_ofChars_of_isShown {cs : List Char}
    (h : ∀ c ∈ cs, Markup.Style.isShown c = true) : .char '\n' ∉ Text.ofChars cs := by
  intro hmem
  obtain ⟨c, hc, heq⟩ := List.mem_map.mp hmem
  cases heq
  exact absurd (h '\n' hc) (by decide)

theorem titles_line {v : Violation} {line : Text} (h : v.line? = some line) :
    (indentation ++ line).titles = v.forged := by
  obtain ⟨front, back, rfl, hfront, hback, hdash⟩ := Violation.line?_framed h
  have hindented : .char '\n' ∉ indentation ++ Text.ofChars front := by
    simpa [indentation, Text.ofChars] using notMem_ofChars_of_isShown hfront
  have hhead : ∀ p ∈ (Text.ofChars back).head?, p ≠ .char '-' := by
    intro p hp
    rw [Text.ofChars, List.head?_map] at hp
    obtain ⟨c, hc, rfl⟩ := Option.map_eq_some_iff.mp hp
    exact fun heq => hdash c hc (CodePoint.char.inj heq)
  rw [← List.append_assoc, ← List.append_assoc]
  exact titles_framed hindented rfl (notMem_ofChars_of_isShown hback) hhead

theorem sum_titles_lines {vs : List Violation} {lines : List Text}
    (h : vs.mapM Violation.line? = some lines) :
    (lines.map fun line => (indentation ++ line).titles).sum = (vs.map Violation.forged).sum := by
  have hsteps := forall₂_of_mapM h
  clear h
  induction hsteps with
  | nil => rfl
  | cons hline _ ih =>
    rw [List.map_cons, List.map_cons, List.sum_cons, List.sum_cons, titles_line hline, ih]

/-! ## 4. The titles of a report -/

/-- How many titles the names in the lines about an element hold. -/
def forgedIn (s : Schema) (g : Graph) (element : Ref) : Nat :=
  ((s.violations (g.element element)).map Violation.forged).sum

section Titles

variable {s : Schema} {g : Graph} {element : Ref} {block : List Text}

theorem IsBlock.not_startsMarked (h : s.IsBlock g element block) :
    ∀ line ∈ block, ¬ startsMarked line := by
  obtain ⟨dump, lines, -, -, -, rfl⟩ := h
  refine List.forall_mem_cons.mpr ⟨?_, fun line hline => ?_⟩
  · rintro ⟨_, ⟨⟩⟩
  · obtain ⟨own, -, rfl⟩ := List.mem_map.mp hline
    rintro ⟨_, ⟨⟩⟩

theorem IsBlock.sum_titles (h : s.IsBlock g element block) :
    (block.map Text.titles).sum = 1 + s.forgedIn g element := by
  obtain ⟨dump, lines, hdump, hlines, -, rfl⟩ := h
  rw [List.map_cons, List.sum_cons, titles_heading hdump, List.map_map]
  exact congrArg (1 + ·) (sum_titles_lines hlines)

theorem sum_titles_blocks {elements : List Ref} {blocks : List (List Text)}
    (h : List.Forall₂ (s.IsBlock g) elements blocks) :
    (blocks.flatten.map Text.titles).sum =
      elements.length + (elements.map (s.forgedIn g)).sum := by
  induction h with
  | nil => rfl
  | cons hblock _ ih =>
    rw [List.flatten_cons, List.map_append, List.sum_append, hblock.sum_titles, ih,
      List.length_cons, List.map_cons, List.sum_cons]
    omega

theorem forgedIn_eq_zero_iff : s.forgedIn g element = 0 ↔
    ∀ v ∈ s.violations (g.element element), ¬ HoldsTitle v.shownName := by
  simp only [forgedIn, List.sum_eq_zero_iff_forall_eq_nat, List.forall_mem_map, Violation.forged_eq_zero_iff]

end Titles

/-- **The titles of a report are those of the elements that do not conform, and those in names.** A
    record as a document adds one title, whatever it holds. A name adds the titles behind its first
    line, so there is one title for every element that does not conform as long as no name in the
    lines about them holds one. -/
theorem titles_of_report {s : Schema} {text : List Char} {d : Markup.Document} {items : List Ref}
    {r : Rejection} (hload : Markup.load text = .ok (some d))
    (hroot : d.graph.object d.root = .list items) (h : s.validate text = .error (.rejected r)) :
    (∀ element, element ∈ s.offending d.graph items ↔
      element ∈ items ∧ ¬ s.Conforms d.graph element) ∧
    r.message.titles = (s.offending d.graph items).length +
      ((s.offending d.graph items).map (s.forgedIn d.graph)).sum ∧
    (r.message.titles = (s.offending d.graph items).length ↔
      ∀ element ∈ s.offending d.graph items, ∀ v ∈ s.violations (d.graph.element element),
        ¬ HoldsTitle v.shownName) := by
  obtain ⟨lines, hlines, hne, rfl⟩ := violated_of_rejected hload hroot h
  obtain ⟨blocks, rfl, hblocks⟩ := examineElements_eq_ok hlines
  have hunmarked : ∀ line ∈ blocks.flatten, ¬ startsMarked line := by
    intro line hline
    obtain ⟨block, hblock, hin⟩ := List.mem_flatten.mp hline
    obtain ⟨element, he⟩ := exists_isBlock_of_mem hblocks block hblock
    exact he.not_startsMarked line hin
  have hcount : (violated { lines := blocks.flatten }).message.titles =
      (s.offending d.graph items).length +
        ((s.offending d.graph items).map (s.forgedIn d.graph)).sum :=
    (titles_join hne hunmarked).trans (sum_titles_blocks hblocks)
  refine ⟨fun _ => mem_offending (Markup.load_keyed hload), hcount, ?_⟩
  rw [hcount, Nat.add_eq_left, List.sum_eq_zero_iff_forall_eq_nat, List.forall_mem_map]
  simp only [forgedIn_eq_zero_iff]

/-- A schema without properties. -/
def bareSchema : List Char :=
  "description: x\nused_by: []\nproperties: \x7b\x7d".toList

/-- A collection of two elements: a record with a key of two lines, neither of them a title over a
    marker, and a number. -/
def twoLineKey : List Char :=
  "- \x7b\"a\\nMalformed object:\": 1\x7d\n- 5".toList

theorem twoLineKey_titles : ∃ s d items r, compile bareSchema = .ok s ∧
    Markup.load twoLineKey = .ok (some d) ∧ d.graph.object d.root = .list items ∧
    s.validate twoLineKey = .error (.rejected r) ∧ s.offending d.graph items = items ∧
    items.length = 2 ∧ r.message.titles = items.length + 0 := by
  have evaluates : ∃ s ∈ (compile bareSchema).toOption,
      ∃ d ∈ (Markup.load twoLineKey).toOption.join,
      d.graph.object d.root = .list [1, 4] ∧ s.offending d.graph [1, 4] = [1, 4] ∧
      ([1, 4].map (s.forgedIn d.graph)).sum = 0 ∧
      (match s.validate twoLineKey with
        | .error (.rejected _) => true
        | _ => false) = true := by decide +kernel
  obtain ⟨s, hs, d, hd, hroot, hall, hnone, hrejects⟩ := evaluates
  have hload := eq_ok_of_join hd
  split at hrejects
  · rename_i r hr
    have htitles := (titles_of_report hload hroot hr).2.1
    rw [hall, hnone] at htitles
    exact ⟨s, d, [1, 4], r, eq_ok_of_toOption hs, hload, hroot, hr, hall, rfl, htitles⟩
  · cases hrejects

/-- A collection of one record, with a key that reads like a block from its second line on. -/
def forgingKey : List Char :=
  "- \x7b\"a\\nMalformed object:\\n---\": 1\x7d".toList

/-- **One element, two titles**: the key of the record holds a title. -/
theorem key_forges_title : ∃ s d items r, compile bareSchema = .ok s ∧
    Markup.load forgingKey = .ok (some d) ∧ d.graph.object d.root = .list items ∧
    s.validate forgingKey = .error (.rejected r) ∧ (s.offending d.graph items).length = 1 ∧
    r.message.titles = 2 := by
  have evaluates : ∃ s ∈ (compile bareSchema).toOption,
      ∃ d ∈ (Markup.load forgingKey).toOption.join,
      d.graph.object d.root = .list [1] ∧ (s.offending d.graph [1]).length = 1 ∧
      (match s.validate forgingKey with
        | .error (.rejected r) => r.message.titles
        | _ => 0) = 2 := by decide +kernel
  obtain ⟨s, hs, d, hd, hroot, hone, htwo⟩ := evaluates
  split at htwo
  · rename_i r hr
    exact ⟨s, d, [1], r, eq_ok_of_toOption hs, eq_ok_of_join hd, hroot, hr, hone, htwo⟩
  · cases htwo

end Schema

end Conform
