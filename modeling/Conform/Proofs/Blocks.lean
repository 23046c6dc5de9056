import Mathlib.Data.List.Forall2
import Mathlib.Data.List.SplitBy
import Conform.Proofs.Conformance

/-!
# The blocks of a report

The lines about all elements of a collection end up in one flat list, with text of the records in
them. They can be told apart again: only the first line of a block starts with the words of a
heading, because every other line starts with the indentation. So cutting the lines in front of the
headings gives back one block for every element with violations (`report_decomposes`), and what is
said about an element does not depend on the elements around it.
-/

namespace Conform.Schema

/-! ## 1. Blocks -/

/-- What the first line of a block starts with. -/
def blockOpening : Text := Text.ofString "Malformed object:\n"

/-- Does a line open a block? -/
def opensBlock (line : Text) : Bool :=
  blockOpening.isPrefixOf line

/-- Some lines, cut in front of every one that opens a block. -/
def cutBlocks (lines : List Text) : List (List Text) :=
  lines.splitBy fun _ line => !opensBlock line

/-- The block about an element: the heading with the element as a document, and the lines of its
    violations, at least one, each behind the indentation. -/
def IsBlock (s : Schema) (g : Graph) (element : Ref) (block : List Text) : Prop :=
  ∃ dump lines, g.dump element = .ok dump ∧
    s.elementLines? g element = some lines ∧ lines ≠ [] ∧
    block = blockHeading dump :: lines.map (indentation ++ ·)

/-- The elements with violations, in their order. -/
def offending (s : Schema) (g : Graph) (items : List Ref) : List Ref :=
  items.filter fun element => !(s.violations (g.element element)).isEmpty

theorem mem_offending {s : Schema} {g : Graph} (hg : g.Keyed) {items : List Ref} {element : Ref} :
    element ∈ s.offending g items ↔ element ∈ items ∧ ¬ s.Conforms g element := by
  rw [offending, List.mem_filter, ← violations_eq_nil_iff hg]
  simp

/-! ## 2. Where blocks open -/

/-- Lines of which the first opens a block, and no other. -/
def OpensOnce (block : List Text) : Prop :=
  ∃ first rest, block = first :: rest ∧ opensBlock first = true ∧
    ∀ line ∈ rest, opensBlock line = false

theorem opensBlock_heading (dump : List Char) : opensBlock (blockHeading dump) = true :=
  List.isPrefixOf_iff_prefix.mpr (List.prefix_append blockOpening (Text.ofChars dump))

/-- No indented line opens a block, whatever it says. -/
theorem opensBlock_indented (line : Text) : opensBlock (indentation ++ line) = false := rfl

theorem IsBlock.opensOnce {s : Schema} {g : Graph} {element : Ref} {block : List Text}
    (h : s.IsBlock g element block) : OpensOnce block := by
  obtain ⟨dump, lines, -, -, -, rfl⟩ := h
  refine ⟨_, _, rfl, opensBlock_heading dump, fun line hline => ?_⟩
  obtain ⟨own, -, rfl⟩ := List.mem_map.mp hline
  exact opensBlock_indented own

theorem exists_isBlock_of_mem {s : Schema} {g : Graph} {elements : List Ref}
    {blocks : List (List Text)} (h : List.Forall₂ (s.IsBlock g) elements blocks) :
    ∀ block ∈ blocks, ∃ element, s.IsBlock g element block := by
  induction h with
  | nil => exact fun _ hb => absurd hb List.not_mem_nil
  | cons hblock _ ih => exact List.forall_mem_cons.mpr ⟨⟨_, hblock⟩, ih⟩

theorem opensOnce_of_forall₂ {s : Schema} {g : Graph} {elements : List Ref}
    {blocks : List (List Text)} (h : List.Forall₂ (s.IsBlock g) elements blocks) :
    ∀ block ∈ blocks, OpensOnce block := by
  intro block hblock
  obtain ⟨element, he⟩ := exists_isBlock_of_mem h block hblock
  exact he.opensOnce

/-- **Cutting undoes joining**: lists that open once each are what their lines are cut into. -/
theorem cutBlocks_flatten {blocks : List (List Text)} (h : ∀ block ∈ blocks, OpensOnce block) :
    cutBlocks blocks.flatten = blocks := by
  refine List.splitBy_flatten (fun hnil => ?_) (fun block hb => ?_) ?_
  · obtain ⟨first, rest, hf, -⟩ := h [] hnil
    cases hf
  · obtain ⟨first, rest, rfl, -, hrest⟩ := h block hb
    have inside : ∀ line ∈ rest, (!opensBlock line) = true := fun line hline => by
      rw [hrest line hline]
      rfl
    exact (List.pairwise_cons.mpr
      ⟨inside, List.pairwise_of_forall_mem_list fun _ _ line => inside line⟩).isChain
  · refine (List.pairwise_of_forall_mem_list fun a ha b hb => ?_).isChain
    obtain ⟨_, _, rfl, -⟩ := h a ha
    obtain ⟨first, _, rfl, hfirst, -⟩ := h b hb
    refine ⟨List.cons_ne_nil _ _, List.cons_ne_nil _ _, ?_⟩
    show (!opensBlock first) = false
    rw [hfirst]
    rfl

/-! ## 3. The lines about some elements -/

/-- What a partial function makes of a list, member by member. -/
theorem forall₂_of_mapM {α β : Type} {f : α → Option β} : ∀ {l : List α} {l' : List β},
    l.mapM f = some l' → List.Forall₂ (fun a b => f a = some b) l l'
  | [], _, h => by
      obtain rfl := Option.some.inj h
      exact .nil
  | a :: l, _, h => by
      rw [List.mapM_cons] at h
      obtain ⟨b, hb, h⟩ := Option.bind_eq_some_iff.mp h
      obtain ⟨bs, hbs, h⟩ := Option.bind_eq_some_iff.mp h
      obtain rfl := Option.some.inj h
      exact .cons hb (forall₂_of_mapM hbs)

/-- The report about an element is a block if it has violations, and empty if not. -/
theorem examineElement_eq_ok {s : Schema} {g : Graph} {element : Ref} {report : Report}
    (h : s.examineElement g element = .ok report) :
    (s.violations (g.element element) = [] ∧ report.lines = []) ∨
      s.violations (g.element element) ≠ [] ∧ s.IsBlock g element report.lines := by
  unfold examineElement at h
  split at h
  · cases h
  · rename_i hlines
    cases h
    exact .inl ⟨elementLines?_eq_nil_iff.mp hlines, rfl⟩
  · rename_i lines hne hlines
    obtain ⟨dump, hdump, hreport⟩ := bind_eq_ok.mp h
    cases hreport
    refine .inr ⟨fun hnone => ?_, dump, lines, hdump, hlines, hne, rfl⟩
    exact hne (Option.some.inj (hlines.symm.trans (elementLines?_eq_nil_iff.mpr hnone)))

/-- **The lines about some elements are the blocks of those with violations**, in their order. -/
theorem examineElements_eq_ok {s : Schema} {g : Graph} {items : List Ref} {lines : List Text}
    (h : s.examineElements g items = .ok lines) :
    ∃ blocks, lines = blocks.flatten ∧ List.Forall₂ (s.IsBlock g) (s.offending g items) blocks := by
  induction items generalizing lines with
  | nil =>
    cases h
    exact ⟨[], rfl, .nil⟩
  | cons element items ih =>
    obtain ⟨report, h₁, h₂⟩ := bind_eq_ok.mp h
    obtain ⟨more, h₃, h₄⟩ := bind_eq_ok.mp h₂
    cases pure_eq_ok.mp h₄
    obtain ⟨blocks, rfl, hblocks⟩ := ih h₃
    rcases examineElement_eq_ok h₁ with ⟨hv, hlines⟩ | ⟨hv, hblock⟩
    · refine ⟨blocks, by rw [hlines, List.nil_append], ?_⟩
      rw [offending, List.filter_cons_of_neg (by simp [hv])]
      exact hblocks
    · refine ⟨report.lines :: blocks, rfl, ?_⟩
      rw [offending, List.filter_cons_of_pos (by simp [hv])]
      exact .cons hblock hblocks

/-- The lines about two lists of elements are those about the first and those about the second. -/
theorem examineElements_append (s : Schema) (g : Graph) (xs ys : List Ref) :
    s.examineElements g (xs ++ ys) = do
      let front ← s.examineElements g xs
      let back ← s.examineElements g ys
      return front ++ back := by
  induction xs with
  | nil =>
    show s.examineElements g ys = s.examineElements g ys >>= fun back => pure ([] ++ back)
    cases s.examineElements g ys <;> rfl
  | cons x xs ih =>
    rw [List.cons_append, examineElements, ih, examineElements]
    cases s.examineElement g x with
    | error f => rfl
    | ok report =>
      cases s.examineElements g xs with
      | error f => rfl
      | ok front =>
        cases s.examineElements g ys with
        | error f => rfl
        | ok back => exact congrArg Except.ok (List.append_assoc ..).symm

/-- An element without violations adds nothing. -/
theorem examineElements_conforming {s : Schema} {g : Graph} {element : Ref}
    (h : s.violations (g.element element) = []) (xs ys : List Ref) :
    s.examineElements g (xs ++ element :: ys) = s.examineElements g (xs ++ ys) := by
  have nothing : s.examineElements g (element :: ys) = s.examineElements g ys := by
    rw [examineElements, examineElement, elementLines?_eq_nil_iff.mpr h]
    cases s.examineElements g ys <;> rfl
  rw [examineElements_append, examineElements_append, nothing]

/-! ## 4. The lines of a rejection -/

/-- A list that is rejected is rejected with the lines about its elements, of which there are some. -/
theorem violated_of_rejected {s : Schema} {text : List Char} {d : Markup.Document}
    {items : List Ref} {r : Rejection} (hload : Markup.load text = .ok (some d))
    (hroot : d.graph.object d.root = .list items) (h : s.validate text = .error (.rejected r)) :
    ∃ lines, s.examineElements d.graph items = .ok lines ∧ lines ≠ [] ∧ r = violated { lines } := by
  have hkind : d.graph.kind d.root ≠ .null := by
    rw [Graph.kind, hroot]
    exact fun e => by cases e
  rw [validate, examine, hload] at h
  simp only [hkind, if_false, hroot] at h
  cases hlines : s.examineElements d.graph items with
  | error f =>
    rw [hlines] at h
    cases h
  | ok lines =>
    rw [hlines] at h
    simp only [ok_bind, Findings.verdict] at h
    split at h
    · rename_i hsome
      cases h
      refine ⟨lines, rfl, fun hnil => ?_, rfl⟩
      subst hnil
      cases hsome
    · cases h

theorem lines_of_rejected {s : Schema} {text : List Char} {d : Markup.Document} {items : List Ref}
    {r : Rejection} (hload : Markup.load text = .ok (some d))
    (hroot : d.graph.object d.root = .list items) (h : s.validate text = .error (.rejected r)) :
    s.examineElements d.graph items = .ok r.lines := by
  obtain ⟨lines, hlines, -, rfl⟩ := violated_of_rejected hload hroot h
  exact hlines

/-- **A report is one block for every element with violations.** Cut in front of its headings, the
    lines about a list of elements are the blocks of those that do not conform, in their order.
    What is said about a list of elements is what is said about its parts, and an element that
    conforms can be left out. -/
theorem report_decomposes {s : Schema} {text : List Char} {d : Markup.Document} {items : List Ref}
    {r : Rejection} (hload : Markup.load text = .ok (some d))
    (hroot : d.graph.object d.root = .list items) (h : s.validate text = .error (.rejected r)) :
    (∀ element, element ∈ s.offending d.graph items ↔
      element ∈ items ∧ ¬ s.Conforms d.graph element) ∧
    List.Forall₂ (s.IsBlock d.graph) (s.offending d.graph items) (cutBlocks r.lines) ∧
    s.examineElements d.graph items = .ok r.lines ∧
    (∀ xs ys, s.examineElements d.graph (xs ++ ys) = do
      let front ← s.examineElements d.graph xs
      let back ← s.examineElements d.graph ys
      return front ++ back) ∧
    ∀ xs element ys, s.Conforms d.graph element →
      s.examineElements d.graph (xs ++ element :: ys) = s.examineElements d.graph (xs ++ ys) := by
  have hg := Markup.load_keyed hload
  have hlines := lines_of_rejected hload hroot h
  obtain ⟨blocks, hflat, hblocks⟩ := examineElements_eq_ok hlines
  refine ⟨fun _ => mem_offending hg, ?_, hlines, examineElements_append s d.graph,
    fun xs element ys hc => examineElements_conforming ((violations_eq_nil_iff hg).mpr hc) xs ys⟩
  rw [hflat, cutBlocks_flatten (opensOnce_of_forall₂ hblocks)]
  exact hblocks

/-- A schema with one property, and no primary key. -/
def oneProperty : Schema :=
  ⟨"x", [], none, [(.str "a", ⟨.string, none, none⟩)]⟩

/-- A collection of three elements: the first has a key that reads like a heading, the second
    conforms, and the third is no mapping. -/
def forgedHeading : List Char :=
  "- \x7b\"Malformed object:\\n\": 1\x7d\n- \x7ba: x\x7d\n- 5".toList

theorem forgedHeading_decomposes : ∃ d items r, Markup.load forgedHeading = .ok (some d) ∧
    d.graph.object d.root = .list items ∧ items.length = 3 ∧
    oneProperty.validate forgedHeading = .error (.rejected r) ∧ (cutBlocks r.lines).length = 2 ∧
    List.Forall₂ (oneProperty.IsBlock d.graph) (oneProperty.offending d.graph items)
      (cutBlocks r.lines) := by
  have reads : (Markup.load forgedHeading).toOption.join.map (fun d => d.graph.object d.root) =
      some (.list [1, 4, 7]) := by decide +kernel
  have rejects : (match oneProperty.validate forgedHeading with
      | .error (.rejected r) => (cutBlocks r.lines).length
      | _ => 0) = 2 := by decide +kernel
  obtain ⟨d, hd, hroot⟩ := Option.map_eq_some_iff.mp reads
  have hload := eq_ok_of_join hd
  split at rejects
  · rename_i r hr
    exact ⟨d, [1, 4, 7], r, hload, hroot, rfl, hr, rejects, (report_decomposes hload hroot hr).2.1⟩
  · cases rejects

end Conform.Schema
