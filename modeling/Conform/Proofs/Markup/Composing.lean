import Conform.Proofs.Markup.Nodes
import Conform.Proofs.Markup.Spelling

/-!
# Composing the tokens of a record

Taking the tokens of a record where a node is due adds nodes that spell it, behind all that are
there, makes the first of them a part of its parent, and changes nothing else (`Composes`). What is
expected afterwards is what was expected below, save that a loose list does not end by itself: the
next token does that.
-/

namespace Conform.Markup.Composition

/-! ## 1. Drafts that are left alone -/

/-- The nodes that the drafts are. -/
def nodes (c : Composition) : Array Node :=
  c.drafts.map Draft.node

/-- Nodes have been added, and nothing else has changed. -/
structure Keeps (c c' : Composition) : Prop where
  size : c.drafts.size ≤ c'.drafts.size
  root : c'.root = c.root
  handles : c'.handles = c.handles
  drafts : ∀ i < c.drafts.size, c'.drafts[i]? = c.drafts[i]?

theorem Keeps.refl (c : Composition) : Keeps c c :=
  ⟨Nat.le_refl _, rfl, rfl, fun _ _ => rfl⟩

theorem Keeps.trans {c c' c'' : Composition} (h : Keeps c c') (h' : Keeps c' c'') : Keeps c c'' where
  size := Nat.le_trans h.size h'.size
  root := h'.root.trans h.root
  handles := h'.handles.trans h.handles
  drafts i hi := (h'.drafts i (Nat.lt_of_lt_of_le hi h.size)).trans (h.drafts i hi)

theorem size_attach (c : Composition) (parent : Option NodeId) (id : NodeId) :
    (c.attach parent id).drafts.size = c.drafts.size := by
  cases parent <;> simp [attach]

theorem handles_attach (c : Composition) (parent : Option NodeId) (id : NodeId) :
    (c.attach parent id).handles = c.handles := by
  cases parent <;> rfl

/-- A draft with more parts, the last ones first. -/
def extend (d : Draft) (parts : List NodeId) : Draft :=
  { d with parts := parts ++ d.parts }

theorem drafts_attach (c : Composition) (parent : Option NodeId) (id i : NodeId) :
    (c.attach parent id).drafts[i]? =
      if parent = some i then c.drafts[i]?.map (extend · [id]) else c.drafts[i]? := by
  cases parent with
  | none => rfl
  | some p =>
    rw [attach, Array.getElem?_modify]
    simp only [Option.some.injEq]
    rfl

theorem Keeps.attach {c c' : Composition} (h : Keeps c c') (parent : Option NodeId) (id : NodeId) :
    Keeps (c.attach parent id) (c'.attach parent id) where
  size := by
    rw [size_attach, size_attach]
    exact h.size
  root := by
    cases parent with
    | none => rfl
    | some p => exact h.root
  handles := by
    rw [handles_attach, handles_attach]
    exact h.handles
  drafts i hi := by
    rw [size_attach] at hi
    rw [drafts_attach, drafts_attach, h.drafts i hi]

/-- Makes some nodes parts of another one, in their order. -/
def attachAll (c : Composition) (parent : NodeId) (ids : List NodeId) : Composition :=
  ids.foldl (fun c id => c.attach (some parent) id) c

theorem Keeps.attachAll {parent : NodeId} : ∀ (ids : List NodeId) {c c' : Composition},
    Keeps c c' → Keeps (c.attachAll parent ids) (c'.attachAll parent ids)
  | [], _, _ => fun h => h
  | id :: ids, _, _ => fun h => Keeps.attachAll ids (h.attach (some parent) id)

theorem attachAll_spec (parent : NodeId) : ∀ (ids : List NodeId) (c : Composition),
    (c.attachAll parent ids).drafts.size = c.drafts.size ∧
      (c.attachAll parent ids).root = c.root ∧ (c.attachAll parent ids).handles = c.handles ∧
      ∀ i, (c.attachAll parent ids).drafts[i]? =
        if parent = i then c.drafts[i]?.map (extend · ids.reverse) else c.drafts[i]?
  | [], c => by
      refine ⟨rfl, rfl, rfl, fun i => ?_⟩
      have hid : ∀ d : Draft, extend d [] = d := fun _ => rfl
      simp [Composition.attachAll, hid]
  | id :: ids, c => by
      obtain ⟨hsize, hroot, hhandles, hdrafts⟩ := attachAll_spec parent ids (c.attach (some parent) id)
      refine ⟨hsize.trans (size_attach c _ _), hroot, hhandles, fun i => ?_⟩
      rw [Composition.attachAll, List.foldl_cons, ← Composition.attachAll, hdrafts, drafts_attach]
      simp only [Option.some.injEq]
      split
      · rw [Option.map_map]
        congr 1
        funext d
        simp [extend]
      · rfl

theorem nodes_of_drafts {c : Composition} {i : NodeId} {d : Draft} (h : c.drafts[i]? = some d) :
    c.nodes[i]? = some d.node := by
  rw [nodes, Array.getElem?_map, h]
  rfl

theorem sameFrom_of_keeps {c c' : Composition} {parent front : NodeId} {ids : List NodeId}
    (h : Keeps (c.attachAll parent ids) c') (hfront : parent < front) :
    SameFrom front c.nodes c'.nodes := by
  intro i n hi hn
  obtain ⟨hsize, -, -, hdrafts⟩ := attachAll_spec parent ids c
  rw [nodes, Array.getElem?_map] at hn ⊢
  obtain ⟨d, hd, rfl⟩ := Option.map_eq_some_iff.mp hn
  obtain ⟨hlt, -⟩ := Array.getElem?_eq_some_iff.mp hd
  have hne : parent ≠ i := Nat.ne_of_lt (Nat.lt_of_lt_of_le hfront hi)
  rw [h.drafts i (by rw [hsize]; exact hlt), hdrafts, if_neg hne, hd]
  rfl

/-! ## 2. Runs -/

/-- Some tokens are taken one by one. -/
def Feeds (c : Composition) (ts : List Token) (c' : Composition) : Prop :=
  ts.foldlM feed c = .ok c'

theorem Feeds.nil (c : Composition) : Feeds c [] c := rfl

theorem Feeds.cons {c c₁ c' : Composition} {t : Token} {ts : List Token} (h : c.feed t = .ok c₁)
    (h' : Feeds c₁ ts c') : Feeds c (t :: ts) c' := by
  rw [Feeds, List.foldlM_cons, h, ok_bind]
  exact h'

theorem Feeds.append {c c₁ c' : Composition} {ts ts' : List Token} (h : Feeds c ts c₁)
    (h' : Feeds c₁ ts' c') : Feeds c (ts ++ ts') c' := by
  rw [Feeds, List.foldlM_append, h, ok_bind]
  exact h'

/-- What is expected next, behind a loose list that the next token may end. -/
def Ready (loose : Bool) (c : Composition) (below : List Expect) : Prop :=
  c.expected = below ∨ (loose = true ∧ ∃ id, c.expected = .looseSequence id :: below)

theorem Ready.feed {loose : Bool} {c : Composition} {below : List Expect} (h : Ready loose c below)
    {t : Token} (ht : t ≠ .blockEntry) : c.feed t = take t below c := by
  rcases h with h | ⟨-, id, h⟩
  · rw [Composition.feed, h]
  · rw [Composition.feed, h, take]
    exact ht

/-! ## 3. Nodes -/

/-- What taking the tokens of a node leads to. -/
structure Composes (c : Composition) (parent : Option NodeId) (below : List Expect) (loose : Bool)
    (r : Record) (c' : Composition) : Prop where
  keeps : Keeps (c.attach parent c.drafts.size) c'
  grown : c.drafts.size < c'.drafts.size
  spells : Spells c'.nodes c.drafts.size r
  ready : Ready loose c' below

/-- The composition with one more node. -/
def added (c : Composition) (parent : Option NodeId) (d : Draft) (expected : List Expect) :
    Composition :=
  (c.append parent d).2.expect expected

theorem take_node {c : Composition} {role : Role} {parent : Option NodeId} {props : Properties}
    {t : Token} {below : List Expect} {r : Except Fault Composition}
    (h : c.begin? role parent props t below = some r) :
    take t (.node role parent props :: below) c = r := by
  rw [take, h]

section Added

variable {c : Composition} {parent : Option NodeId} {d : Draft} {expected : List Expect}

theorem added_spec (d : Draft) (expected : List Expect) (hparent : ∀ p ∈ parent, p < c.drafts.size) :
    Keeps (c.attach parent c.drafts.size) (added c parent d expected) ∧
      (added c parent d expected).drafts.size = c.drafts.size + 1 ∧
      (added c parent d expected).drafts[c.drafts.size]? = some d := by
  have hpush : Keeps c { c with drafts := c.drafts.push d } :=
    ⟨by simp, rfl, rfl, fun i hi => Array.getElem?_push_lt hi ▸ (Array.getElem?_eq_getElem hi).symm⟩
  have hsize : (added c parent d expected).drafts.size = c.drafts.size + 1 :=
    (size_attach { c with drafts := c.drafts.push d } parent c.drafts.size).trans (Array.size_push _)
  have hkeeps := hpush.attach parent c.drafts.size
  refine ⟨⟨hkeeps.size, hkeeps.root, hkeeps.handles, hkeeps.drafts⟩, hsize, ?_⟩
  have hlast := drafts_attach { c with drafts := c.drafts.push d } parent c.drafts.size c.drafts.size
  have hne : parent ≠ some c.drafts.size := fun h => Nat.lt_irrefl _ (hparent _ h)
  rw [if_neg hne] at hlast
  exact hlast.trans Array.getElem?_push_size

theorem lt_size_added : c.drafts.size < (added c parent d expected).drafts.size := by
  have hsize : (added c parent d expected).drafts.size = c.drafts.size + 1 :=
    (size_attach { c with drafts := c.drafts.push d } parent c.drafts.size).trans (Array.size_push _)
  rw [hsize]
  exact Nat.lt_succ_self _

theorem handles_added : (added c parent d expected).handles = c.handles :=
  handles_attach { c with drafts := c.drafts.push d } parent c.drafts.size

/-- A scalar is a node by itself. -/
theorem composes_scalar {tag : Tag} {t : Text} {a : Atom} (loose : Bool)
    (hparent : ∀ p ∈ parent, p < c.drafts.size)
    (h : Node.Holds ⟨tag, .scalar t⟩ a) :
    Composes c parent expected loose (.atom a) (added c parent ⟨tag, .scalar t, []⟩ expected) := by
  obtain ⟨hkeeps, hsize, hlast⟩ := added_spec ⟨tag, .scalar t, []⟩ expected hparent
  exact ⟨hkeeps, by omega, ⟨_, nodes_of_drafts hlast, h⟩, .inl rfl⟩

/-- A collection with its parts behind it is a node. -/
theorem Composes.of_parts {tag : Tag} {shape : Shape} (ids : List NodeId) {c' : Composition}
    {r : Record} {loose : Bool} (hparent : ∀ p ∈ parent, p < c.drafts.size)
    (h : Keeps ((added c parent ⟨tag, shape, []⟩ expected).attachAll c.drafts.size ids) c')
    (hspells : c'.nodes[c.drafts.size]? = some (Draft.node ⟨tag, shape, ids.reverse⟩) →
      Spells c'.nodes c.drafts.size r) (hready : Ready loose c' below) :
    Composes c parent below loose r c' := by
  obtain ⟨hkeeps, hsize, hlast⟩ := added_spec ⟨tag, shape, []⟩ expected hparent
  obtain ⟨hsize', hroot', hhandles', hdrafts'⟩ :=
    attachAll_spec c.drafts.size ids (added c parent ⟨tag, shape, []⟩ expected)
  have hgrown := h.size
  have hbefore := size_attach c parent c.drafts.size
  refine ⟨⟨by omega, ?_, ?_, fun i hi => ?_⟩, by omega, hspells ?_, hready⟩
  · rw [h.root, hroot', hkeeps.root]
  · rw [h.handles, hhandles', hkeeps.handles]
  · have hne : c.drafts.size ≠ i := by omega
    rw [h.drafts i (by omega), hdrafts', if_neg hne, hkeeps.drafts i hi]
  · refine nodes_of_drafts ?_
    rw [h.drafts _ (by omega), hdrafts', if_pos rfl, hlast]
    simp [extend]

end Added

/-! ## 4. Atoms -/

theorem scalarTag_plain (bare : Bool) (cs : List Char) :
    scalarTag true bare (Text.ofChars cs) = Pattern.tagOf cs := by
  rw [scalarTag, Text.chars?_ofChars]
  rfl

/-- What stands for an atom is taken as a node that denotes what was read. -/
theorem composes_atom {a : Atom} (ha : a.Proper) (folds : Bool) (n : Nat) (loose : Bool) {role : Role}
    {parent : Option NodeId} {below : List Expect} (c : Composition)
    (hparent : ∀ p ∈ parent, p < c.drafts.size) (hhandles : c.handles = commonHandles)
    (hexpected : c.expected = .node role parent {} :: below) :
    ∃ c', Feeds c (atomTokens folds n a) c' ∧
      Composes c parent below loose (.atom (a.reread folds n)) c' := by
  have hscalar : ∀ {plain : Bool} {t : Text} {b : Atom},
      Node.Holds ⟨scalarTag plain false t, .scalar t⟩ b →
      ∃ c', Feeds c [.scalar plain t] c' ∧ Composes c parent below loose (.atom b) c' := by
    intro plain t b h
    refine ⟨_, Feeds.cons ?_ (Feeds.nil _), composes_scalar loose hparent h⟩
    rw [feed, hexpected]
    exact take_node rfl
  by_cases hstr : ∃ t, a = .str t
  · obtain ⟨t, rfl⟩ := hstr
    rw [atomTokens, Atom.reread]
    rcases Style.ofText_cases t with ⟨cs, ht, hstyle, hcs⟩ | ⟨cs, -, hstyle, -⟩ | hstyle
    · simp only [hstyle]
      refine hscalar ⟨t, ?_, fun _ => rfl⟩
      have htag : Pattern.tagOf cs = .str :=
        of_decide_eq_true (Bool.and_eq_true_iff.mp hcs).2
      rw [ht, scalarTag_plain, htag]
      rfl
    · simp only [hstyle]
      exact hscalar ⟨t, rfl, fun _ => rfl⟩
    · simp only [hstyle]
      exact hscalar ⟨_, rfl, fun _ => rfl⟩
  · by_cases hbytes : ∃ bs, a = .bytes bs
    · obtain ⟨bs, rfl⟩ := hbytes
      have htag : Tag.ofFull (Tag.repository ++ Tag.binary.name) = .binary := by decide
      have hfull : (c.expect (.node role parent { written := some binaryTag } :: below)).fullTag?
          { written := some binaryTag } = .ok (some (Tag.repository ++ Tag.binary.name)) := by
        rw [fullTag?, binaryTag]
        simp only [fullForm?, expect, hhandles]
        rfl
      have hascii : (Base64.encode bs).all (·.toNat < 128) = true :=
        List.all_eq_true.mpr fun c hc => decide_eq_true (Base64.ascii_lines hc)
      have hholds : Node.Holds ⟨.binary, .scalar (Text.ofChars (Base64.encode bs))⟩ (.bytes bs) := by
        refine ⟨_, rfl, fun _ => ?_⟩
        simp only [tagOfAtom, Scalar.valueOf?, Scalar.bytesOf, Text.chars?_ofChars, hascii, if_true,
          Base64.decode?_encode]
      have hfirst : c.feed (.tag binaryTag) =
          .ok (c.expect (.node role parent { written := some binaryTag } :: below)) := by
        rw [feed, hexpected]
        exact take_node rfl
      have hsecond : (c.expect (.node role parent { written := some binaryTag } :: below)).feed
          (.scalar false (Text.ofChars (Base64.encode bs))) =
            .ok (added c parent ⟨.binary, .scalar (Text.ofChars (Base64.encode bs)), []⟩ below) := by
        refine take_node ?_
        rw [begin?]
        simp only [hfull, ok_bind, htag]
        cases parent <;> rfl
      exact ⟨_, .cons hfirst (.cons hsecond (.nil _)), composes_scalar loose hparent hholds⟩
    · rw [not_exists] at hstr hbytes
      have hform := hasForm_of_proper ha hstr hbytes
      have hreread : a.reread folds n = a := by
        unfold Atom.reread
        split
        · exact absurd rfl (hstr _)
        · rfl
      rw [atomTokens_of_form folds n hstr hbytes, hreread]
      refine hscalar ⟨_, ?_, valueOf?_plainForm hform fun i hi => ?_⟩
      · rw [scalarTag_plain, tagOf_plainForm hform]
      · rw [hi] at ha
        exact ha

/-! ## 5. Collections -/

/-- Where entries of a list are due, and what is expected behind each. -/
inductive Runs : Role → (NodeId → Expect) → Prop where
  | indented : Runs .entry .sequence
  | loose : Runs .looseEntry .looseSequence

theorem Runs.feed {role : Role} {x : NodeId → Expect} (h : Runs role x) {c : Composition}
    {id : NodeId} {below : List Expect} (hexpected : c.expected = x id :: below) :
    role.inBlock = true ∧
      c.feed .blockEntry = .ok (c.expect (.node role (some id) {} :: x id :: below)) := by
  rw [Composition.feed, hexpected]
  cases h <;> exact ⟨rfl, rfl⟩

theorem Keeps.expect {c c' : Composition} (h : Keeps c c') (expected : List Expect) :
    Keeps c (c'.expect expected) :=
  ⟨h.size, h.root, h.handles, h.drafts⟩

/-- The parts of a mapping, each key before its value. -/
def flat (pairs : List (NodeId × NodeId)) : List NodeId :=
  pairs.flatMap fun p => [p.1, p.2]

theorem pairUp_flat : ∀ pairs : List (NodeId × NodeId), pairUp (flat pairs) = pairs
  | [] => rfl
  | (i, j) :: pairs => congrArg ((i, j) :: ·) (pairUp_flat pairs)

/-- A node behind a mark leaves what is expected as it was. -/
theorem Composes.expected {c c' : Composition} {parent : Option NodeId} {below : List Expect}
    {r : Record} (h : Composes c parent below false r c') : c'.expected = below :=
  h.ready.resolve_right fun h => Bool.false_ne_true h.1

theorem Composes.handles {c c' : Composition} {parent : Option NodeId} {below : List Expect}
    {loose : Bool} {r : Record} (h : Composes c parent below loose r c') : c'.handles = c.handles :=
  h.keeps.handles.trans (handles_attach c parent _)

/-- A part of a collection, and the parts behind it. -/
theorem Composes.keeps_more {c c' c'' : Composition} {expected below : List Expect} {loose : Bool}
    {r : Record} {id : NodeId} {ids : List NodeId}
    (h : Composes (c.expect expected) (some id) below loose r c')
    (hmore : Keeps (c'.attachAll id ids) c'') : Keeps (c.attachAll id (c.drafts.size :: ids)) c'' := by
  have hself : Keeps c (c.expect expected) := (Keeps.refl c).expect expected
  exact (hself.attachAll (c.drafts.size :: ids)).trans ((h.keeps.attachAll ids).trans hmore)

section Collections

variable {role : Role} {loose : Bool} {c c' : Composition} {parent : Option NodeId}
  {below : List Expect} {tokens : List Token}

/-- A list whose entries have been taken, between the marks of its start and its end. -/
theorem composes_indented (hrole : role.inBlock = true) (hparent : ∀ p ∈ parent, p < c.drafts.size)
    (hexpected : c.expected = .node role parent {} :: below) {ids : List NodeId} {rs : List Record}
    (hfeeds : Feeds (added c parent ⟨.seq, .sequence, []⟩ (.sequence c.drafts.size :: below)) tokens c')
    (hkeeps : Keeps ((added c parent ⟨.seq, .sequence, []⟩
      (.sequence c.drafts.size :: below)).attachAll c.drafts.size ids) c')
    (hexpected' : c'.expected = .sequence c.drafts.size :: below)
    (hspells : SpellsAll c'.nodes c.drafts.size ids rs) :
    ∃ c'', Feeds c (.blockSequenceStart :: (tokens ++ [.blockEnd])) c'' ∧
      Composes c parent below loose (.list rs) c'' := by
  have hstart : c.feed .blockSequenceStart =
      .ok (added c parent ⟨.seq, .sequence, []⟩ (.sequence c.drafts.size :: below)) := by
    rw [feed, hexpected]
    refine take_node ?_
    rw [begin?]
    simp only [hrole, if_true]
    rfl
  have hend : c'.feed .blockEnd = .ok (c'.expect below) := by
    rw [feed, hexpected']
    rfl
  refine ⟨_, .cons hstart (hfeeds.append (.cons hend (.nil _))),
    Composes.of_parts ids hparent (hkeeps.expect below) (fun h => ⟨ids, ?_, hspells⟩) (.inl rfl)⟩
  rw [h, Draft.node, List.reverse_reverse]

/-- A list that is not indented: its first entry starts it as it would go on. -/
theorem composes_unindented (hparent : ∀ p ∈ parent, p < c.drafts.size)
    (hexpected : c.expected = .node .mappingPart parent {} :: below) {ids : List NodeId}
    {rs : List Record}
    (hfeeds : Feeds (added c parent ⟨.seq, .sequence, []⟩ (.looseSequence c.drafts.size :: below))
      (.blockEntry :: tokens) c')
    (hkeeps : Keeps ((added c parent ⟨.seq, .sequence, []⟩
      (.looseSequence c.drafts.size :: below)).attachAll c.drafts.size ids) c')
    (hexpected' : c'.expected = .looseSequence c.drafts.size :: below)
    (hspells : SpellsAll c'.nodes c.drafts.size ids rs) :
    ∃ c'', Feeds c (.blockEntry :: tokens) c'' ∧ Composes c parent below true (.list rs) c'' := by
  have hstart : c.feed .blockEntry =
      (added c parent ⟨.seq, .sequence, []⟩ (.looseSequence c.drafts.size :: below)).feed
        .blockEntry := by
    rw [feed, hexpected]
    exact take_node rfl
  have hfeeds' : Feeds c (.blockEntry :: tokens) c' := by
    rw [Feeds, List.foldlM_cons] at hfeeds ⊢
    rw [hstart]
    exact hfeeds
  refine ⟨c', hfeeds', Composes.of_parts ids hparent hkeeps (fun h => ⟨ids, ?_, hspells⟩)
    (.inr ⟨rfl, _, hexpected'⟩)⟩
  rw [h, Draft.node, List.reverse_reverse]

/-- A mapping whose pairs have been taken, between the marks of its start and its end. -/
theorem composes_mapping (hrole : role.inBlock = true) (hparent : ∀ p ∈ parent, p < c.drafts.size)
    (hexpected : c.expected = .node role parent {} :: below) {pairs : List (NodeId × NodeId)}
    {es : List (Atom × Record)}
    (hfeeds : Feeds (added c parent ⟨.map, .mapping, []⟩ (.mapping c.drafts.size :: below)) tokens c')
    (hkeeps : Keeps ((added c parent ⟨.map, .mapping, []⟩
      (.mapping c.drafts.size :: below)).attachAll c.drafts.size (flat pairs)) c')
    (hready : Ready true c' (.mapping c.drafts.size :: below))
    (hspells : SpellsPairs c'.nodes c.drafts.size pairs es) :
    ∃ c'', Feeds c (.blockMappingStart :: (tokens ++ [.blockEnd])) c'' ∧
      Composes c parent below loose (.map es) c'' := by
  have hstart : c.feed .blockMappingStart =
      .ok (added c parent ⟨.map, .mapping, []⟩ (.mapping c.drafts.size :: below)) := by
    rw [feed, hexpected]
    refine take_node ?_
    rw [begin?]
    simp only [hrole, if_true]
    rfl
  have hend : c'.feed .blockEnd = .ok (c'.expect below) := by
    rw [hready.feed (by simp)]
    rfl
  refine ⟨_, .cons hstart (hfeeds.append (.cons hend (.nil _))),
    Composes.of_parts (flat pairs) hparent (hkeeps.expect below) (fun h => ⟨pairs, ?_, hspells⟩)
      (.inl rfl)⟩
  rw [h, Draft.node, List.reverse_reverse, pairUp_flat]

end Collections

mutual

/-- **The tokens of a record are taken as nodes that spell what was read.** -/
theorem composes_tokens {role : Role} (hrole : role.inBlock = true) (loose : Bool)
    (hloose : loose = true → role = .mappingPart) (column : Option Nat) :
    ∀ (r : Record), r.Proper → ∀ (c : Composition) {parent : Option NodeId} {below : List Expect},
    (∀ p ∈ parent, p < c.drafts.size) → c.handles = commonHandles →
    c.expected = .node role parent {} :: below →
    ∃ c', Feeds c (r.tokens loose column) c' ∧
      Composes c parent below loose (r.reread loose column) c'
  | .atom a => fun h c _ _ hparent hhandles hexpected =>
      composes_atom h true _ loose c hparent hhandles hexpected
  | .list [] => fun _ c parent below hparent _ hexpected => by
      have hstart : c.feed .flowSequenceStart =
          .ok (added c parent ⟨.seq, .sequence, []⟩ (.flowSequence c.drafts.size :: below)) := by
        rw [feed, hexpected]
        exact take_node rfl
      refine ⟨_, .cons hstart (.cons rfl (.nil _)), Composes.of_parts [] hparent
        ((Keeps.refl _).expect below) (fun h => ⟨[], h, trivial⟩) (.inl rfl)⟩
  | .list (r :: rs) => fun h c parent below hparent hhandles hexpected => by
      rw [Record.tokens, Record.reread]
      cases loose with
      | false =>
        obtain ⟨c', ids, hfeeds, hkeeps, hexpected', hspells⟩ :=
          composes_entries (listColumn false column) .indented (r :: rs) h _
            (handles_added.trans hhandles) lt_size_added rfl
        exact composes_indented hrole hparent hexpected hfeeds hkeeps hexpected' hspells
      | true =>
        obtain rfl := hloose rfl
        obtain ⟨c', ids, hfeeds, hkeeps, hexpected', hspells⟩ :=
          composes_entries (listColumn true column) .loose (r :: rs) h _
            (handles_added.trans hhandles) lt_size_added rfl
        exact composes_unindented hparent hexpected hfeeds hkeeps hexpected' hspells
  | .map [] => fun _ c parent below hparent _ hexpected => by
      have hstart : c.feed .flowMappingStart =
          .ok (added c parent ⟨.map, .mapping, []⟩ (.flowMapping c.drafts.size :: below)) := by
        rw [feed, hexpected]
        exact take_node rfl
      refine ⟨_, .cons hstart (.cons rfl (.nil _)), Composes.of_parts [] hparent
        ((Keeps.refl _).expect below) (fun h => ⟨[], h, trivial⟩) (.inl rfl)⟩
  | .map ((k, r) :: es) => fun h c parent below hparent hhandles hexpected => by
      obtain ⟨c', pairs, hfeeds, hkeeps, hready, hspells⟩ :=
        composes_pairs (blockIndent column) ((k, r) :: es) h.2
          (added c parent ⟨.map, .mapping, []⟩ (.mapping c.drafts.size :: below))
          (handles_added.trans hhandles) lt_size_added (.inl rfl)
      rw [Record.tokens, Record.reread]
      exact composes_mapping hrole hparent hexpected hfeeds hkeeps hready hspells

/-- The entries of a list become its parts. -/
theorem composes_entries (column : Nat) {role : Role} {x : NodeId → Expect} (hx : Runs role x) :
    ∀ (rs : List Record), Record.ProperAll rs → ∀ (c : Composition) {id : NodeId}
      {below : List Expect}, c.handles = commonHandles → id < c.drafts.size →
    c.expected = x id :: below →
    ∃ c' ids, Feeds c (Record.entryTokens column rs) c' ∧ Keeps (c.attachAll id ids) c' ∧
      c'.expected = x id :: below ∧ SpellsAll c'.nodes id ids (Record.rereadAll column rs)
  | [] => fun _ c _ _ _ _ hexpected => ⟨c, [], .nil c, .refl c, hexpected, trivial⟩
  | r :: rs => fun h c id below hhandles hid hexpected => by
      obtain ⟨hrole, hfeed⟩ := hx.feed hexpected
      obtain ⟨c₁, hfeeds, hnode⟩ := composes_tokens hrole false (fun h => nomatch h)
        (some column) r h.1 (c.expect (.node role (some id) {} :: x id :: below))
        (fun p hp => by cases hp; exact hid) hhandles rfl
      obtain ⟨c₂, ids, hfeeds', hkeeps, hexpected', hspells⟩ := composes_entries column hx rs h.2
        c₁ (hnode.handles.trans hhandles) (Nat.lt_trans hid hnode.grown) hnode.expected
      refine ⟨c₂, c.drafts.size :: ids, .append (.cons hfeed hfeeds) hfeeds', hnode.keeps_more hkeeps,
        hexpected', hid, ?_, hspells⟩
      exact Spells.mono (sameFrom_of_keeps hkeeps hid) (Nat.le_refl _) hnode.spells

/-- The pairs of a mapping become its parts. -/
theorem composes_pairs (column : Nat) :
    ∀ (es : List (Atom × Record)), Record.ProperEntries es → ∀ (c : Composition) {id : NodeId}
      {below : List Expect}, c.handles = commonHandles → id < c.drafts.size →
    Ready true c (.mapping id :: below) →
    ∃ c' pairs, Feeds c (Record.pairTokens column es) c' ∧ Keeps (c.attachAll id (flat pairs)) c' ∧
      Ready true c' (.mapping id :: below) ∧
      SpellsPairs c'.nodes id pairs (Record.rereadEntries column es)
  | [] => fun _ c _ _ _ _ hready => ⟨c, [], .nil c, .refl c, hready, trivial⟩
  | (k, r) :: es => fun ⟨hk, _, hr, hes⟩ c id below hhandles hid hready => by
      have hkey : c.feed .key =
          .ok (c.expect (.node .mappingPart (some id) {} :: .mappingValue id :: below)) := by
        rw [hready.feed (by simp)]
        rfl
      obtain ⟨c₁, hfeeds₁, hnode₁⟩ := composes_atom hk (!isShortAtom k)
        (scalarIndent (some column)) false
        (c.expect (.node .mappingPart (some id) {} :: .mappingValue id :: below))
        (fun p hp => by cases hp; exact hid) hhandles rfl
      have hhandles₁ := hnode₁.handles.trans hhandles
      have hid₁ : id < c₁.drafts.size := Nat.lt_trans hid hnode₁.grown
      have hvalue : c₁.feed .value =
          .ok (c₁.expect (.node .mappingPart (some id) {} :: .mapping id :: below)) := by
        rw [feed, hnode₁.expected]
        rfl
      obtain ⟨c₂, hfeeds₂, hnode₂⟩ := composes_tokens rfl (isShortAtom k) (fun _ => rfl)
        (some column) r hr (c₁.expect (.node .mappingPart (some id) {} :: .mapping id :: below))
        (fun p hp => by cases hp; exact hid₁) hhandles₁ rfl
      have hready₂ : Ready true c₂ (.mapping id :: below) := hnode₂.ready.imp_right fun h => ⟨rfl, h.2⟩
      obtain ⟨c₃, pairs, hfeeds₃, hkeeps, hready₃, hspells⟩ := composes_pairs column es hes
        c₂ (hnode₂.handles.trans hhandles₁) (Nat.lt_trans hid₁ hnode₂.grown) hready₂
      have hkeeps₁ := hnode₂.keeps_more hkeeps
      refine ⟨c₃, (c.drafts.size, c₁.drafts.size) :: pairs,
        .append (.append (.cons hkey hfeeds₁) (.cons hvalue hfeeds₂)) hfeeds₃,
        hnode₁.keeps_more hkeeps₁, hready₃, ⟨hid, ?_⟩, ⟨hid₁, ?_⟩, hspells⟩
      · exact Spells.mono (sameFrom_of_keeps hkeeps₁ hid) (Nat.le_refl _) hnode₁.spells
      · exact Spells.mono (sameFrom_of_keeps hkeeps hid₁) (Nat.le_refl _) hnode₂.spells

end

/-! ## 6. Documents -/

/-- **The tokens of a document are composed to nodes that spell what was read.** -/
theorem compose_documentTokens {r : Record} (hr : r.Proper) :
    ∃ nodes, compose (documentTokens r) none = .ok (some ⟨nodes, 0⟩) ∧
      Spells nodes 0 (r.reread false none) := by
  have hstart : ({} : Composition).feed .documentStart =
      .ok (({} : Composition).startDocument.expect [.node (.document true) none {}, .closing]) := rfl
  obtain ⟨c, hfeeds, hnode⟩ := composes_tokens rfl false
    (fun h => nomatch h) none r hr
    (({} : Composition).startDocument.expect [.node (.document true) none {}, .closing])
    (fun p hp => by cases hp) rfl rfl
  have hend : ∃ c', Feeds c ((if isOpenEnded r.written then [.documentEnd] else []) ++ [.streamEnd]) c' ∧
      c'.drafts = c.drafts ∧ c'.root = c.root := by
    cases isOpenEnded r.written with
    | true =>
      have hmark : c.feed .documentEnd = .ok (c.expect [.ending]) := by
        rw [feed, hnode.expected]
        rfl
      exact ⟨_, .cons hmark (.cons rfl (.nil _)), rfl, rfl⟩
    | false =>
      have hdone : c.feed .streamEnd = .ok (c.expect [.done]) := by
        rw [feed, hnode.expected]
        rfl
      exact ⟨_, .cons hdone (.nil _), rfl, rfl⟩
  obtain ⟨c', hfeeds', hdrafts, hroot⟩ := hend
  have hrun : (documentTokens r).foldlM feed {} = .ok c' := Feeds.cons hstart (hfeeds.append hfeeds')
  have hroot' : c'.root = some 0 := hroot.trans hnode.keeps.root
  refine ⟨c'.nodes, ?_, ?_⟩
  · rw [compose, hrun, ok_bind]
    simp only [hroot']
    rfl
  · rw [nodes, hdrafts]
    exact hnode.spells

end Conform.Markup.Composition
