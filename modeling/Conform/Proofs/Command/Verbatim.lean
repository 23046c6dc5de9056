import Conform.Proofs.Command.Cropping
import Conform.Proofs.Forgery
import Conform.Proofs.LineEnds
import Conform.Proofs.Markup.Legible
import Conform.Proofs.Names

/-!
# Reports as they are printed

The console leaves out a few controls and fills up tabs, so messages are printed as they are exactly
if they hold neither (`flatten_printed_eq_iff`). The documents in a report never do, because what
they are written with is legible, and neither do the words around the names in its lines. What is
left are the names themselves, and of these only the texts: numbers, dates and bytes are shown with
characters that stay. So a run prints the reports as checking gives them exactly if no name that is
a text holds such a character, and, on a console that crops, if no line that is too long ends in a
blank (`output_is_verbatim_iff`).
-/

namespace Conform.Command

open Markup.Style

/-! ## 1. The console -/

namespace Console

/-- A character that is printed as it is. -/
def Stays (c : Char) : Prop :=
  isPrinted c = true ∧ c ≠ '\t'

instance : DecidablePred Stays := fun _ => inferInstanceAs (Decidable (_ ∧ _))

/-- Legible characters stay. -/
theorem stays_of_legible {c : Char} (h : Markup.Legible c) : Stays c := by
  have hbound : 32 ≤ c.toNat ∨ c = '\n' := by
    rcases h with h | h
    · simp only [isShown, Bool.or_eq_true, Bool.and_eq_true, decide_eq_true_eq] at h
      omega
    · simp only [isAnyBreak, Bool.or_eq_true, decide_eq_true_eq] at h
      rcases h with ((rfl | rfl) | rfl) | rfl <;> decide
  rcases hbound with hbound | rfl
  · refine ⟨?_, fun htab => ?_⟩
    · simp only [isPrinted, dropped, List.contains_cons, List.contains_nil, Bool.or_false,
        Bool.not_eq_true', Bool.or_eq_false_iff, beq_eq_false_iff_ne]
      omega
    · rw [htab] at hbound
      exact absurd hbound (by decide)
  · decide

/-- A text without tabs is not changed by filling them. -/
theorem fillTabs_of_not_mem {cs : List Char} (h : '\t' ∉ cs) :
    ∀ reversed, fillTabs reversed cs = reversed.reverse ++ cs := by
  induction cs with
  | nil => exact fun reversed => (List.append_nil _).symm
  | cons c cs ih =>
    intro reversed
    obtain ⟨hc, hcs⟩ := not_or.mp fun hor => h (List.mem_cons.mpr hor)
    rw [fillTabs, if_neg (Ne.symm hc), ih hcs, ih hcs]
    split
    · rename_i hfeed
      rw [hfeed]
      rfl
    · simp

/-- Where tabs are filled, only blanks come in. -/
theorem stays_fillTabs {cs : List Char} (h : ∀ c ∈ cs, isPrinted c = true) :
    ∀ {reversed : List Char}, (∀ c ∈ reversed, Stays c) → ∀ c ∈ fillTabs reversed cs, Stays c := by
  induction cs with
  | nil => exact fun hreversed c hc => hreversed c (List.mem_reverse.mp hc)
  | cons d cs ih =>
    intro reversed hreversed
    obtain ⟨hd, hcs⟩ := List.forall_mem_cons.mp h
    have hpart : ∀ c ∈ reversed.reverse, Stays c := fun c hc => hreversed c (List.mem_reverse.mp hc)
    have hrest : ∀ c ∈ fillTabs [] cs, Stays c := ih hcs (List.forall_mem_nil _)
    rw [fillTabs]
    split
    · exact List.forall_mem_append.mpr ⟨hpart, List.forall_mem_cons.mpr ⟨by decide, hrest⟩⟩
    · split
      · refine List.forall_mem_append.mpr ⟨List.forall_mem_append.mpr ⟨hpart, ?_⟩, hrest⟩
        intro c hc
        rw [List.eq_of_mem_replicate hc]
        decide
      · rename_i htab
        exact ih hcs (List.forall_mem_cons.mpr ⟨⟨hd, htab⟩, hreversed⟩)

/-- Whatever is printed, what is seen of it stays. -/
theorem stays_printed (cs : List Char) : ∀ c ∈ printed cs, Stays c := by
  have hfiltered : ∀ c ∈ cs.filter isPrinted, isPrinted c = true := fun c hc =>
    (List.mem_filter.mp hc).2
  refine List.forall_mem_append.mpr ⟨stays_fillTabs hfiltered ?_, ?_⟩
  · exact List.forall_mem_nil _
  · exact List.forall_mem_singleton.mpr (by decide)

theorem printed_of_stays {cs : List Char} (h : ∀ c ∈ cs, Stays c) : printed cs = cs ++ ['\n'] := by
  have hfilter : cs.filter isPrinted = cs := List.filter_eq_self.mpr fun c hc => (h c hc).1
  rw [printed, hfilter, fillTabs_of_not_mem fun htab => (h '\t' htab).2 rfl]
  rfl

/-- **Messages are printed as they are exactly if all their characters stay.** -/
theorem flatten_printed_eq_iff (messages : List (List Char)) :
    (messages.map printed).flatten = messages.flatMap (· ++ ['\n']) ↔
      ∀ cs ∈ messages, ∀ c ∈ cs, Stays c := by
  constructor
  · intro heq cs hcs c hc
    have hmem : c ∈ (messages.map printed).flatten := by
      rw [heq]
      exact List.mem_flatMap.mpr ⟨cs, hcs, List.mem_append_left _ hc⟩
    obtain ⟨shown, hshown, hin⟩ := List.mem_flatten.mp hmem
    obtain ⟨own, -, rfl⟩ := List.mem_map.mp hshown
    exact stays_printed own c hin
  · intro h
    rw [← List.flatMap_def]
    exact List.flatMap_congr fun cs hcs => printed_of_stays (h cs hcs)

/-! ## 2. Texts -/

/-- A text that is printed as it is. -/
def Verbatim (t : Text) : Prop :=
  ∀ c, .char c ∈ t → Stays c

theorem verbatim_nil : Verbatim [] :=
  fun _ hc => absurd hc List.not_mem_nil

theorem verbatim_append {t u : Text} : Verbatim (t ++ u) ↔ Verbatim t ∧ Verbatim u := by
  simp only [Verbatim, List.mem_append]
  exact ⟨fun h => ⟨fun c hc => h c (.inl hc), fun c hc => h c (.inr hc)⟩,
    fun h c hc => hc.elim (h.1 c) (h.2 c)⟩

theorem verbatim_ofChars {cs : List Char} : Verbatim (Text.ofChars cs) ↔ ∀ c ∈ cs, Stays c := by
  simp [Verbatim, Text.ofChars]

theorem verbatim_of_all {cs : List Char} (h : (cs.all fun c => Stays c) = true) :
    Verbatim (Text.ofChars cs) :=
  verbatim_ofChars.mpr fun c hc => of_decide_eq_true (List.all_eq_true.mp h c hc)

theorem verbatim_of_isShown {cs : List Char} (h : ∀ c ∈ cs, isShown c = true) :
    Verbatim (Text.ofChars cs) :=
  verbatim_ofChars.mpr fun c hc => stays_of_legible (.inl (h c hc))

/-- Line feeds between lines stay. -/
theorem verbatim_join {lines : List Text} :
    Verbatim (Text.join (Text.ofChars ['\n']) lines) ↔ ∀ line ∈ lines, Verbatim line := by
  have hfeed : Verbatim (Text.ofChars ['\n']) := verbatim_of_all (by decide)
  cases lines with
  | nil => exact iff_of_true verbatim_nil (List.forall_mem_nil _)
  | cons line lines =>
    rw [Report.join_cons, verbatim_append, List.forall_mem_cons]
    refine and_congr_right fun _ => ⟨fun h line hline c hc => ?_, fun h c hc => ?_⟩
    · exact h c (List.mem_flatMap.mpr ⟨line, hline, List.mem_append_right _ hc⟩)
    · obtain ⟨line, hline, hc⟩ := List.mem_flatMap.mp hc
      exact verbatim_append.mpr ⟨hfeed, h line hline⟩ c hc

end Console

open Console

/-- What is printed of some messages, as characters. -/
theorem Prints.exists_own {messages : List Text} {output : List Char} (h : Prints messages output) :
    ∃ own : List (List Char), messages = own.map Text.ofChars ∧ output = (own.map printed).flatten := by
  obtain ⟨shown, hshown, rfl⟩ := h
  induction hshown with
  | nil => exact ⟨[], rfl, rfl⟩
  | @cons message cs messages shown hm _ ih =>
    obtain ⟨own, rfl, hshown⟩ := ih
    obtain ⟨chars, hchars, rfl⟩ := Option.map_eq_some_iff.mp hm
    exact ⟨chars :: own, by rw [Text.eq_ofChars hchars]; rfl, congrArg (printed chars ++ ·) hshown⟩

theorem flatMap_feeds (own : List (List Char)) :
    (own.map Text.ofChars).flatMap (· ++ Text.ofChars ['\n']) =
      Text.ofChars (own.flatMap (· ++ ['\n'])) := by
  simp [Text.ofChars, List.flatMap_map, List.map_flatMap]

theorem ofChars_injective : Function.Injective Text.ofChars :=
  List.map_injective_iff.mpr fun _ _ => CodePoint.char.inj

/-- What is printed is the messages, with a line feed behind each, exactly if they can be printed as
    they are. -/
theorem Prints.verbatim_iff {messages : List Text} {output : List Char}
    (h : Prints messages output) :
    Text.ofChars output = messages.flatMap (· ++ Text.ofChars ['\n']) ↔
      ∀ m ∈ messages, Verbatim m := by
  obtain ⟨own, rfl, rfl⟩ := h.exists_own
  rw [flatMap_feeds, ofChars_injective.eq_iff, flatten_printed_eq_iff, List.forall_mem_map]
  simp only [verbatim_ofChars]

/-- The lines of some messages with a line feed behind each are their lines, and an empty one. -/
theorem forall_line_flatMap_iff {width : Nat} {own : List (List Char)} :
    (∀ line ∈ (own.flatMap (· ++ ['\n'])).splitOn '\n', Fits width (Text.ofChars line)) ↔
      ∀ m ∈ own.map Text.ofChars, ∀ line ∈ m.lines, Fits width line := by
  rw [List.forall_mem_map]
  simp only [Text.lines_ofChars, List.forall_mem_map]
  induction own with
  | nil =>
    have hempty : Fits width (Text.ofChars []) := fun h => absurd h (Nat.not_lt_zero width)
    rw [List.flatMap_nil, List.splitOn_nil]
    exact iff_of_true (List.forall_mem_singleton.mpr hempty) (List.forall_mem_nil _)
  | cons cs own ih =>
    rw [List.flatMap_cons, List.append_assoc, List.singleton_append,
      List.splitOn_append_cons_self, List.forall_mem_append, ih, List.forall_mem_cons]

/-- A console that crops prints the messages as they are exactly if their characters stay and their
    lines fit. -/
theorem Prints.cropped_verbatim_iff {messages : List Text} {output : List Char}
    (h : Prints messages output) (width : Nat) :
    Text.ofChars (cropped width output) = messages.flatMap (· ++ Text.ofChars ['\n']) ↔
      (∀ m ∈ messages, Verbatim m) ∧ ∀ m ∈ messages, ∀ line ∈ m.lines, Fits width line := by
  obtain ⟨own, rfl, rfl⟩ := h.exists_own
  rw [flatMap_feeds, ofChars_injective.eq_iff, ← forall_line_flatMap_iff, ← cropped_eq_self_iff,
    List.forall_mem_map]
  simp only [verbatim_ofChars]
  constructor
  · intro heq
    -- what is left behind cropping has been printed, so the messages hold nothing else
    have hstays : ∀ cs ∈ own, ∀ c ∈ cs, Stays c := by
      intro cs hcs c hc
      have hmem : c ∈ cropped width (own.map printed).flatten := by
        rw [heq]
        exact List.mem_flatMap.mpr ⟨cs, hcs, List.mem_append_left _ hc⟩
      obtain ⟨shown, hshown, hin⟩ :=
        List.mem_flatten.mp ((cropped_sublist width _).mem hmem)
      obtain ⟨own', -, rfl⟩ := List.mem_map.mp hshown
      exact stays_printed own' c hin
    rw [(flatten_printed_eq_iff own).mpr hstays] at heq
    exact ⟨hstays, heq⟩
  · rintro ⟨hstays, hfits⟩
    rw [(flatten_printed_eq_iff own).mpr hstays, hfits]

/-! ## 3. Names -/

theorem isShown_mark (cs : List Char) : isShown (Quoted.mark cs) = true := by
  rw [Quoted.mark]
  split <;> decide

theorem isShown_shared {m c : Char} {escape : List Char} (hm : isShown m = true)
    (h : Quoted.shared? m c = some escape) : ∀ d ∈ escape, isShown d = true := by
  unfold Quoted.shared? at h
  split_ifs at h with _ hmark <;> obtain rfl := Option.some.inj h
  · exact List.all_eq_true.mp (by decide)
  · exact List.forall_mem_cons.mpr ⟨by decide, List.forall_mem_singleton.mpr (hmark ▸ hm)⟩
  all_goals exact List.all_eq_true.mp (by decide)

theorem isShown_byteChar {m : Char} (hm : isShown m = true) (c : Char) :
    ∀ d ∈ Quoted.byteChar m c, isShown d = true := by
  have hlower : ∀ v < 16, isShown (lowerDigit v) = true := by decide
  rw [Quoted.byteChar]
  split
  · rename_i hshared
    exact isShown_shared hm hshared
  · split
    · rename_i hc
      rw [Bool.and_eq_true, decide_eq_true_eq, decide_eq_true_eq] at hc
      refine List.forall_mem_singleton.mpr ?_
      simp only [isShown, Bool.or_eq_true, Bool.and_eq_true, decide_eq_true_eq]
      omega
    · refine List.forall_mem_cons.mpr ⟨by decide, List.forall_mem_cons.mpr ⟨by decide, ?_⟩⟩
      exact fun d hd => Markup.isShown_of_mem_hexDigits hlower hd

/-- Every byte is shown with legible characters. -/
theorem isShown_bytes (bs : List UInt8) : ∀ c ∈ Quoted.bytes bs, isShown c = true := by
  refine List.forall_mem_cons.mpr ⟨by decide, List.forall_mem_cons.mpr ⟨isShown_mark _, ?_⟩⟩
  refine List.forall_mem_append.mpr ⟨fun c hc => ?_, List.forall_mem_singleton.mpr (isShown_mark _)⟩
  obtain ⟨b, -, hc⟩ := List.mem_flatMap.mp hc
  exact isShown_byteChar (isShown_mark _) b c hc

/-- **Only a text can have a name with characters that do not stay.** -/
theorem verbatim_of_shown {a : Atom} {name : Text} (h : a.shown? = some name)
    (hstr : ∀ t, a ≠ .str t) : Verbatim name := by
  have hplain : ∀ {cs : List Char}, fitsPlain cs = true → Verbatim (Text.ofChars cs) := fun h =>
    verbatim_of_isShown (Markup.fitsPlain_iff.mp h).1
  have hwords : ∀ {word : String}, word.toList.all isShown = true → Verbatim (Text.ofString word) :=
    fun h => verbatim_of_isShown (List.all_eq_true.mp h)
  cases a with
  | null =>
    obtain rfl := Option.some.inj h
    exact hwords (by decide)
  | bool b =>
    obtain rfl := Option.some.inj h
    cases b <;> exact hwords (by decide)
  | int i =>
    rw [Atom.shown?, Option.map_eq_some_iff] at h
    obtain ⟨cs, hcs, rfl⟩ := h
    rw [Numeral.written?, Option.ite_none_right_eq_some] at hcs
    obtain rfl := Option.some.inj hcs.2
    exact hplain (Markup.fitsPlain_written i)
  | float d =>
    obtain rfl := Option.some.inj h
    exact verbatim_of_isShown (Markup.isShown_double (by decide) (by decide) d)
  | str t => exact absurd rfl (hstr t)
  | bytes bs =>
    obtain rfl := Option.some.inj h
    exact verbatim_of_isShown (isShown_bytes bs)
  | day d =>
    obtain rfl := Option.some.inj h
    exact hplain (Markup.fitsPlain_written_day d)
  | moment m =>
    obtain rfl := Option.some.inj h
    exact hplain (Markup.fitsPlain_written_moment m)

/-- An atom that is a text. -/
def textOf? : Atom → Option Text
  | .str t => some t
  | _ => none

theorem verbatim_shown_iff {a : Atom} {name : Text} (h : a.shown? = some name) :
    Verbatim name ↔ ∀ t ∈ textOf? a, Verbatim t := by
  cases a with
  | str t =>
    obtain rfl := Option.some.inj h
    exact ⟨fun hname t ht => Option.some.inj ht ▸ hname, fun h => h _ rfl⟩
  | _ => exact iff_of_true (verbatim_of_shown h nofun) nofun

end Conform.Command

namespace Conform.Schema

open Command Command.Console

/-! ## 4. Lines and blocks -/

/-- The name in a violation, if it is a text. -/
def Violation.textName? : Violation → Option Text
  | .notARecord _ => none
  | .missingKey name => some name
  | .wrongType name _ _ => textOf? name
  | .unknownField name => textOf? name

/-- The line of a violation stays exactly if the name in it does. -/
theorem Violation.verbatim_line_iff {v : Violation} {line : Text} (h : v.line? = some line) :
    Verbatim line ↔ ∀ name ∈ v.textName?, Verbatim name := by
  have hname : Verbatim v.shownName ↔ ∀ name ∈ v.textName?, Verbatim name := by
    cases v with
    | notARecord k => exact iff_of_true verbatim_nil nofun
    | missingKey name => simp [shownName, textName?]
    | wrongType name expected actual =>
      obtain ⟨shown, hshown, -⟩ := Option.map_eq_some_iff.mp h
      rw [shownName, hshown]
      exact verbatim_shown_iff hshown
    | unknownField name =>
      obtain ⟨shown, hshown, -⟩ := Option.map_eq_some_iff.mp h
      rw [shownName, hshown]
      exact verbatim_shown_iff hshown
  obtain ⟨front, back, rfl, hfront, hback, -⟩ := line?_framed h
  rw [verbatim_append, verbatim_append, hname]
  exact ⟨fun h => h.1.2, fun h => ⟨⟨verbatim_of_isShown hfront, h⟩, verbatim_of_isShown hback⟩⟩

theorem verbatim_lines_iff {vs : List Violation} {lines : List Text}
    (h : vs.mapM Violation.line? = some lines) :
    (∀ line ∈ lines, Verbatim line) ↔ ∀ v ∈ vs, ∀ name ∈ v.textName?, Verbatim name :=
  (forall_mem_iff_of_forall₂ (forall₂_of_mapM h) fun _ _ hline =>
    (Violation.verbatim_line_iff hline).symm).symm

/-- Every name in the lines about an element stays. -/
def NamesStayAt (s : Schema) (g : Graph) (element : Ref) : Prop :=
  ∀ v ∈ s.violations (g.element element), ∀ name ∈ v.textName?, Verbatim name

/-- A block stays exactly if the names in its lines do: the element as a document is no matter. -/
theorem IsBlock.verbatim_iff {s : Schema} {g : Graph} {element : Ref} {block : List Text}
    (h : s.IsBlock g element block) :
    (∀ line ∈ block, Verbatim line) ↔ s.NamesStayAt g element := by
  obtain ⟨dump, lines, hdump, hlines, -, rfl⟩ := h
  have hheading : Verbatim (blockHeading dump) := by
    refine verbatim_append.mpr ⟨verbatim_of_all (by decide), verbatim_ofChars.mpr ?_⟩
    exact fun c hc => stays_of_legible (Graph.legible_dump hdump c hc)
  have hindented : ∀ line, Verbatim (indentation ++ line) ↔ Verbatim line := fun line =>
    verbatim_append.trans (and_iff_right (verbatim_of_all (by decide)))
  rw [List.forall_mem_cons, and_iff_right hheading, List.forall_mem_map]
  simp only [hindented]
  exact verbatim_lines_iff hlines

/-! ## 5. Messages -/

/-- If a text is a list, every name in the lines about its elements stays. -/
def NamesStay (s : Schema) (text : List Char) : Prop :=
  ∀ d items, Markup.load text = .ok (some d) → d.graph.object d.root = .list items →
    ∀ element ∈ items, s.NamesStayAt d.graph element

/-- In the lines about an element that conforms there are no names. -/
theorem namesStayAt_of_no_violations {s : Schema} {g : Graph} {element : Ref}
    (h : s.violations (g.element element) = []) : s.NamesStayAt g element := by
  intro v hv
  rw [h] at hv
  exact absurd hv List.not_mem_nil

/-- The message of a rejection stays exactly if the names in it do. -/
theorem verbatim_of_rejected {s : Schema} {text : List Char} {r : Rejection}
    (h : s.validate text = .error (.rejected r)) : Verbatim r.message ↔ s.NamesStay text := by
  by_cases hlist : ∃ d items, Markup.load text = .ok (some d) ∧
    d.graph.object d.root = .list items
  · obtain ⟨d, items, hload, hroot⟩ := hlist
    obtain ⟨lines, hlines, -, rfl⟩ := violated_of_rejected hload hroot h
    obtain ⟨blocks, rfl, hblocks⟩ := examineElements_eq_ok hlines
    have hmessage : Verbatim (violated { lines := blocks.flatten }).message ↔
        ∀ element ∈ s.offending d.graph items, s.NamesStayAt d.graph element := by
      refine verbatim_join.trans ?_
      rw [List.forall_mem_flatten]
      exact (forall_mem_iff_of_forall₂ hblocks fun _ _ hblock => hblock.verbatim_iff.symm).symm
    rw [hmessage]
    constructor
    · intro hall d' items' hload' hroot' element hmem
      cases hload.symm.trans hload'
      cases hroot.symm.trans hroot'
      by_cases hnone : s.violations (d.graph.element element) = []
      · exact namesStayAt_of_no_violations hnone
      · exact hall element (List.mem_filter.mpr ⟨hmem, by simpa using hnone⟩)
    · exact fun hstay element hmem => hstay d items hload hroot element (List.mem_filter.mp hmem).1
  · -- no elements are looked at: the message is a fixed text
    refine iff_of_true ?_ fun d items hload hroot => absurd ⟨d, items, hload, hroot⟩ hlist
    rcases validate_eq_rejected h with ⟨-, rfl⟩ | ⟨-, rfl⟩ | ⟨-, -, rfl⟩ |
      ⟨d, items, -, hload, hroot, -⟩
    · exact verbatim_of_all (by decide)
    · exact verbatim_of_all (by decide)
    · exact verbatim_of_all (by decide)
    · exact absurd ⟨d, items, hload, hroot⟩ hlist

/-- The message in a result stays exactly if the names in it do. The message of a valid text is
    empty. -/
theorem verbatim_result_iff {s : Schema} {text : List Char} {result : Result}
    (h : s.result text = .ok result) : Verbatim result.message ↔ s.NamesStay text := by
  unfold Schema.result at h
  split at h
  · rename_i hvalid
    obtain rfl := Except.ok.inj h
    refine iff_of_true verbatim_nil fun d items hload hroot element hmem => ?_
    obtain ⟨d', items', hload', hroot', hconform⟩ := validate_eq_ok_iff.mp hvalid
    cases hload.symm.trans hload'
    cases hroot.symm.trans hroot'
    exact namesStayAt_of_no_violations
      ((violations_eq_nil_iff (Markup.load_keyed hload)).mpr (hconform element hmem))
  · rename_i r hrejected
    obtain rfl := Except.ok.inj h
    exact verbatim_of_rejected hrejected
  · cases h

/-- The result of a valid text says nothing. -/
theorem message_of_valid {s : Schema} {text : List Char} {result : Result}
    (h : s.result text = .ok result) (hvalid : result.valid = true) : result.message = [] := by
  unfold Schema.result at h
  split at h
  · obtain rfl := Except.ok.inj h
    rfl
  · obtain rfl := Except.ok.inj h
    cases hvalid
  · cases h

end Conform.Schema

namespace Conform.Command

/-! ## 6. Runs -/

/-- The messages of the invalid ones among some results, in their order. -/
def invalidMessages (results : List Schema.Result) : List Text :=
  (results.filter fun result => !result.valid).map (·.message)

/-- The result of a valid text has no message, so it is no matter whether it counts. -/
theorem verbatim_invalidMessages_iff {s : Schema} {texts : List (List Char)}
    {results : List Schema.Result} (h : texts.map s.result = results.map .ok) :
    (∀ m ∈ invalidMessages results, Console.Verbatim m) ↔ ∀ text ∈ texts, s.NamesStay text := by
  have hresults : List.Forall₂ (fun text result => s.result text = .ok result) texts results := by
    rw [← List.forall₂_eq_eq_eq, List.forall₂_map_left_iff, List.forall₂_map_right_iff] at h
    exact h
  rw [forall_mem_iff_of_forall₂ hresults fun text result hresult =>
    (Schema.verbatim_result_iff hresult).symm, invalidMessages, List.forall_mem_map]
  constructor
  · intro hinvalid result hmem
    cases hvalid : result.valid with
    | false => exact hinvalid result (List.mem_filter.mpr ⟨hmem, by rw [hvalid]; rfl⟩)
    | true =>
      obtain ⟨text, -, hresult⟩ := exists_left_of_mem hresults result hmem
      rw [Schema.message_of_valid hresult hvalid]
      exact Console.verbatim_nil
  · exact fun hall result hmem => hall result (List.mem_filter.mp hmem).1

/-- If checking some texts one after the other comes to its end, there is a result for each of them,
    and the messages of the invalid ones are printed. -/
theorem ofResults_done {failed : Bool} {status : Nat} {results : List (Except Fault Schema.Result)}
    (h : (Outcome.ofResults failed results).ending = .done status) :
    ∃ own, results = own.map .ok ∧
      Prints (invalidMessages own) (Outcome.ofResults failed results).output := by
  induction results generalizing failed with
  | nil => exact ⟨[], rfl, [], .nil, rfl⟩
  | cons result results ih =>
    cases result with
    | error f => cases h
    | ok result =>
      rw [Outcome.ofResults] at h ⊢
      cases hvalid : result.valid with
      | true =>
        rw [hvalid] at h
        obtain ⟨own, rfl, hprints⟩ := ih h
        refine ⟨result :: own, rfl, ?_⟩
        rw [invalidMessages, List.filter_cons_of_neg (by simp [hvalid])]
        exact hprints
      | false =>
        rw [hvalid] at h
        simp only [Bool.false_eq_true, if_false, Outcome.printing] at h ⊢
        cases hshown : Console.print? result.message with
        | none =>
          rw [hshown] at h
          cases h
        | some cs =>
          rw [hshown] at h
          obtain ⟨own, rfl, shown, hprinted, houtput⟩ := ih h
          refine ⟨result :: own, rfl, cs :: shown, ?_, ?_⟩
          · rw [invalidMessages, List.filter_cons_of_pos (by simp [hvalid])]
            exact .cons hshown hprinted
          · exact congrArg (cs ++ ·) houtput

/-- **When reports are printed as they are.** A run that comes to its end prints the messages of the
    invalid files, in their order, and it prints them as they are exactly if no name in them holds a
    tab or a control that is left out: the values of the records, and their names as they stand in
    the documents, never change what is printed. On a console that crops lines at a width, the messages
    are seen as they are exactly if besides none of their lines beyond that width ends in a blank. -/
theorem output_is_verbatim_iff {settings : Settings} {read : Reader} {arguments : List (List Char)}
    {verbose : Bool} {schema file : List Char} {files : List (List Char)} {schemaText : List Char}
    {s : Schema} {texts : List (List Char)} {o : Outcome} {status : Nat}
    (harguments : Request.ofArguments? arguments = some (.check verbose (schema :: file :: files)))
    (hschema : Holds read (.ofChars schema) schemaText) (hcompile : Schema.compile schemaText = .ok s)
    (hfiles : List.Forall₂ (Holds read) ((file :: files).map .ofChars) texts)
    (hrun : run settings read arguments = .finished o) (hdone : o.ending = .done status) :
    ∃ results, texts.map s.result = results.map .ok ∧
      Prints (invalidMessages results) o.output ∧
      (Text.ofChars o.output =
          (invalidMessages results).flatMap (· ++ Text.ofChars ['\n']) ↔
        ∀ text ∈ texts, s.NamesStay text) ∧
      ∀ width,
        Text.ofChars (Console.cropped width o.output) =
            (invalidMessages results).flatMap (· ++ Text.ofChars ['\n']) ↔
          (∀ text ∈ texts, s.NamesStay text) ∧
            ∀ m ∈ invalidMessages results, ∀ line ∈ m.lines, Console.Fits width line := by
  obtain rfl := Response.finished.inj ((run_eq_finished harguments settings read).symm.trans hrun)
  have hlooks := validateAgainst_texts hschema hfiles
  have hending := hlooks.ending.symm.trans hdone
  simp only [Outcome.ofTexts, hcompile] at hlooks hending
  obtain ⟨results, hresults, hprints⟩ := ofResults_done hending
  rw [← hlooks.output] at hprints
  refine ⟨results, hresults, hprints,
    hprints.verbatim_iff.trans (verbatim_invalidMessages_iff hresults), fun width => ?_⟩
  rw [hprints.cropped_verbatim_iff, verbatim_invalidMessages_iff hresults]

/-- A collection of one record with a bell and a tab in a value. -/
def ringingValue : List Char :=
  "- \x7ba: \"\\a\\t\"\x7d".toList

/-- A collection of one record with a bell and a tab in a key. -/
def ringingKey : List Char :=
  "- \x7b\"\\a\\t\": 1\x7d".toList

/-- A folder with a schema and the two collections. -/
def ringingFolder : Folder :=
  [textFile "s" (.ofList Schema.bareSchema), textFile "v" (.ofList ringingValue),
   textFile "k" (.ofList ringingKey)]

/-- What is printed about the first collection. -/
def ringingValueReport : List Char :=
  "Malformed object:\n---\na: \"\\a\\t\"\n\n  unknown field a:\n".toList

theorem ringingValue_is_verbatim : ∃ s results, Schema.compile Schema.bareSchema = .ok s ∧
    run {} ringingFolder.read ["s".toList, "v".toList] =
      .finished ⟨ringingValueReport, [], .done 1⟩ ∧
    [ringingValue].map s.result = results.map .ok ∧
    Prints (invalidMessages results) ringingValueReport ∧
    Text.ofChars ringingValueReport =
      (invalidMessages results).flatMap (· ++ Text.ofChars ['\n']) ∧
    ∀ text ∈ [ringingValue], s.NamesStay text := by
  have harguments : Request.ofArguments? ["s".toList, "v".toList] =
      some (.check false ["s".toList, "v".toList]) := by decide
  have hschema : Holds ringingFolder.read (.ofChars "s".toList) Schema.bareSchema :=
    ⟨_, rfl, by decide +kernel⟩
  have hfile : Holds ringingFolder.read (.ofChars "v".toList) ringingValue :=
    ⟨_, rfl, by decide +kernel⟩
  have evaluates : ∃ s ∈ (Schema.compile Schema.bareSchema).toOption,
      ∃ result ∈ (s.result ringingValue).toOption,
        run {} ringingFolder.read ["s".toList, "v".toList] =
          .finished ⟨ringingValueReport, [], .done 1⟩ ∧
        Text.ofChars ringingValueReport =
          (invalidMessages [result]).flatMap (· ++ Text.ofChars ['\n']) := by decide +kernel
  obtain ⟨s, hs, result, hresult, hrun, hprinted⟩ := evaluates
  obtain ⟨results, hresults, hprints, hiff, -⟩ := output_is_verbatim_iff harguments hschema
    (eq_ok_of_toOption hs) (.cons hfile .nil) hrun rfl
  have hone : [ringingValue].map s.result = [result].map .ok :=
    congrArg ([·]) (eq_ok_of_toOption hresult)
  obtain rfl : results = [result] :=
    List.map_injective_iff.mpr (fun _ _ => Except.ok.inj) (hresults.symm.trans hone)
  exact ⟨s, [result], eq_ok_of_toOption hs, hrun, hresults, hprints, hprinted, hiff.mp hprinted⟩

/-- What is printed about the second collection. -/
def ringingKeyReport : List Char :=
  "Malformed object:\n---\n\"\\a\\t\": 1\n\n  unknown field         :\n".toList

/-- **A key that is not printed as it is**: its bell is left out, and its tab becomes blanks. -/
theorem ringingKey_is_changed : ∃ s result, Schema.compile Schema.bareSchema = .ok s ∧
    run {} ringingFolder.read ["s".toList, "k".toList] =
      .finished ⟨ringingKeyReport, [], .done 1⟩ ∧
    s.result ringingKey = .ok result ∧ result.valid = false ∧
    Text.ofChars ringingKeyReport ≠ result.message ++ Text.ofChars ['\n'] := by
  have evaluates : ∃ s ∈ (Schema.compile Schema.bareSchema).toOption,
      ∃ result ∈ (s.result ringingKey).toOption,
        run {} ringingFolder.read ["s".toList, "k".toList] =
          .finished ⟨ringingKeyReport, [], .done 1⟩ ∧ result.valid = false ∧
        Text.ofChars ringingKeyReport ≠ result.message ++ Text.ofChars ['\n'] := by
    decide +kernel
  obtain ⟨s, hs, result, hresult, hevaluated⟩ := evaluates
  exact ⟨s, result, eq_ok_of_toOption hs, hevaluated.1, eq_ok_of_toOption hresult, hevaluated.2⟩

end Conform.Command
