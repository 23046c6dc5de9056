import Conform.Fault
import Conform.Markup.Token
import Conform.Markup.Pattern

/-!
# Nodes: the structure of a document

A document is a graph of nodes: scalars with their text, sequences of nodes, and mappings from
nodes to nodes. An alias is no node of its own; it is the node its anchor names. This file fixes the
graph and composes it from tokens, one token at a time: what is open at any moment is a stack of
expectations, and a token either meets the one on top or ends it.
-/

namespace Conform.Markup

/-! ## 1. Nodes -/

/-- The number of a node in its document. -/
abbrev NodeId := Nat

/-- What a node holds. -/
inductive Content where
  | scalar (text : Text)
  | sequence (items : List NodeId)
  | mapping (pairs : List (NodeId × NodeId))
  deriving DecidableEq, Repr, Inhabited

/-- A node of a document. -/
structure Node where
  tag : Tag
  content : Content
  deriving DecidableEq, Repr, Inhabited

/-- A document: its nodes and the one at the root. -/
structure Composed where
  nodes : Array Node
  root : NodeId
  deriving Repr, Inhabited

/-! ## 2. Nodes under composition -/

/-- The form of a node whose parts are not yet all there. -/
inductive Shape where
  | scalar (text : Text)
  | sequence
  | mapping
  deriving DecidableEq, Repr, Inhabited

/-- A node under composition. The parts of a mapping are its keys and values in turn. -/
structure Draft where
  tag : Tag
  shape : Shape
  /-- The parts so far, newest first. -/
  parts : List NodeId := []
  deriving Repr, Inhabited

/-- Every two neighbours of a list as a pair. -/
def pairUp {α : Type} : List α → List (α × α)
  | a :: b :: rest => (a, b) :: pairUp rest
  | _ => []

/-- The node that a draft has become. -/
def Draft.node (d : Draft) : Node :=
  match d.shape with
  | .scalar t => ⟨d.tag, .scalar t⟩
  | .sequence => ⟨d.tag, .sequence d.parts.reverse⟩
  | .mapping => ⟨d.tag, .mapping (pairUp d.parts.reverse)⟩

/-! ## 3. Expectations -/

/-- Where a node is due. -/
inductive Role where
  /-- At the root of a document that starts with a marker, or without one. -/
  | document (marked : Bool)
  /-- Behind the hyphen of a block sequence. -/
  | entry
  /-- Behind the hyphen of a sequence that is not indented. -/
  | looseEntry
  /-- As the key or the value of a block mapping. -/
  | mappingPart
  /-- Between the commas of a flow sequence or a flow mapping. -/
  | flowEntry
  /-- As the key of the only pair of a mapping in a flow sequence, and as its value. -/
  | pairKey
  | pairValue
  /-- As a marked key of a flow mapping, and as a value. -/
  | flowKey
  | flowValue
  deriving DecidableEq, Repr, Inhabited

namespace Role

/-- May block collections stand here? -/
def inBlock : Role → Bool
  | .document _ => true
  | .entry => true
  | .looseEntry => true
  | .mappingPart => true
  | _ => false

/-- Does a token leave the place empty, so that the node due there is null? -/
def emptyBefore : Role → Token → Bool
  | .document true, .directive _ => true
  | .document true, .documentStart => true
  | .document true, .documentEnd => true
  | .document true, .streamEnd => true
  | .entry, .blockEntry => true
  | .entry, .blockEnd => true
  | .looseEntry, .blockEntry => true
  | .looseEntry, .key => true
  | .looseEntry, .value => true
  | .looseEntry, .blockEnd => true
  | .mappingPart, .key => true
  | .mappingPart, .value => true
  | .mappingPart, .blockEnd => true
  | .pairKey, .value => true
  | .pairKey, .flowEntry => true
  | .pairKey, .flowSequenceEnd => true
  | .pairValue, .flowEntry => true
  | .pairValue, .flowSequenceEnd => true
  | .flowKey, .value => true
  | .flowKey, .flowEntry => true
  | .flowKey, .flowMappingEnd => true
  | .flowValue, .flowEntry => true
  | .flowValue, .flowMappingEnd => true
  | _, _ => false

end Role

/-- The properties of a node in front of its content. -/
structure Properties where
  anchor : Option (List Char) := none
  /-- A tag, which is looked up when the properties are complete. -/
  written : Option WrittenTag := none
  deriving Repr, Inhabited

/-- What is expected next. -/
inductive Expect where
  /-- The first document, of which nothing has been read. -/
  | opening
  /-- A document that starts with a marker, behind its directives. -/
  | marked (version : Bool)
  /-- The end of the document, perhaps marked. -/
  | closing
  /-- The end of the source, behind the document. -/
  | ending
  /-- The start of another document, behind its directives. It is one too many. -/
  | surplus (version : Bool)
  /-- Nothing more. -/
  | done
  /-- A node, as a part of another one unless it is the root. -/
  | node (role : Role) (parent : Option NodeId) (props : Properties)
  /-- The next entry of a block sequence, or its end. -/
  | sequence (id : NodeId)
  /-- The next entry of a sequence that is not indented; anything else ends it. -/
  | looseSequence (id : NodeId)
  /-- The next key of a block mapping, or its end. -/
  | mapping (id : NodeId)
  /-- The value of the last key of a block mapping. -/
  | mappingValue (id : NodeId)
  /-- An entry of a flow sequence, or its end. -/
  | flowSequence (id : NodeId)
  /-- A comma in a flow sequence, or its end. -/
  | flowSequenceMore (id : NodeId)
  /-- The value of the only pair of a mapping in a flow sequence. -/
  | pairValue (id : NodeId)
  /-- A key of a flow mapping, or its end. -/
  | flowMapping (id : NodeId)
  /-- A comma in a flow mapping, or its end. -/
  | flowMappingMore (id : NodeId)
  /-- The value of the last key of a flow mapping, which was marked as one. -/
  | flowMappingValue (id : NodeId)
  /-- The same behind a key without a mark, which has no value. -/
  | flowMappingNull (id : NodeId)
  deriving Repr, Inhabited

/-! ## 4. The state -/

/-- What has been composed so far. -/
structure Composition where
  drafts : Array Draft := #[]
  root : Option NodeId := none
  /-- The anchors and their nodes. -/
  anchors : List (List Char × NodeId) := []
  /-- The full forms of handles. -/
  handles : List (List Char × List Char) := []
  /-- What is expected, the next first. -/
  expected : List Expect := [.opening]
  deriving Repr, Inhabited

namespace Composition

/-- The handles that every document has. -/
def commonHandles : List (List Char × List Char) :=
  [("!".toList, "!".toList), ("!!".toList, Tag.repository)]

/-- The full form of a handle. -/
def fullForm? (c : Composition) (handle : List Char) : Option (List Char) :=
  (c.handles.find? fun h => h.1 = handle).map (·.2)

/-- The composition with other expectations. -/
def expect (c : Composition) (es : List Expect) : Composition :=
  { c with expected := es }

/-- Makes a node part of another one, or the root. -/
def attach (c : Composition) (parent : Option NodeId) (id : NodeId) : Composition :=
  match parent with
  | none => { c with root := some id }
  | some p =>
    { c with drafts := c.drafts.modify p fun d => { d with parts := id :: d.parts } }

/-- The full form of the tag in some properties: none if there is no tag or the bare one. -/
def fullTag? (c : Composition) (props : Properties) : Except Fault (Option (List Char)) :=
  match props.written with
  | none => .ok none
  | some ⟨none, suffix⟩ => .ok (if suffix = ['!'] then none else some suffix)
  | some ⟨some handle, suffix⟩ =>
    match c.fullForm? handle with
    | none => .error .malformed
    | some front =>
      .ok (if front ++ suffix = ['!'] then none else some (front ++ suffix))

/-- Adds a node as a part of its parent. The result is its number. -/
def append (c : Composition) (parent : Option NodeId) (d : Draft) : NodeId × Composition :=
  let id := c.drafts.size
  (id, { c with drafts := c.drafts.push d }.attach parent id)

/-- Adds a node under its anchor, which no other node has. -/
def add (c : Composition) (parent : Option NodeId) (props : Properties) (d : Draft) :
    Except Fault (NodeId × Composition) :=
  let (id, after) := c.append parent d
  match props.anchor with
  | none => .ok (id, after)
  | some a =>
    if c.anchors.any (·.1 = a) then .error .malformed
    else .ok (id, { after with anchors := (a, id) :: after.anchors })

/-- Adds the null that stands where nothing does. -/
def addEmpty (c : Composition) (parent : Option NodeId) : Composition :=
  (c.append parent ⟨.null, .scalar [], []⟩).2

/-- Adds an empty scalar that has properties. -/
def addBare (c : Composition) (parent : Option NodeId) (props : Properties) :
    Except Fault Composition := do
  let tag := ((← c.fullTag? props).map Tag.ofFull).getD .null
  return (← c.add parent props ⟨tag, .scalar [], []⟩).2

/-- The tag of a scalar without a tag of its own. A bare tag makes it read as if it were plain. -/
def scalarTag (plain bare : Bool) (text : Text) : Tag :=
  if plain || bare then
    match text.chars? with
    | some cs => Pattern.tagOf cs
    | none => .str
  else .str

/-! ## 5. Where a node is due -/

/-- Takes a token as a node, or as the start of one, at a place where one is due. There is no
    result if the token is neither. `below` is what is expected behind the node. -/
def begin? (c : Composition) (role : Role) (parent : Option NodeId) (props : Properties)
    (t : Token) (below : List Expect) : Option (Except Fault Composition) :=
  let collection (shape : Shape) (tag : Tag) (next : NodeId → List Expect) :
      Option (Except Fault Composition) :=
    some do
      let tag := ((← c.fullTag? props).map Tag.ofFull).getD tag
      let (id, c) ← c.add parent props ⟨tag, shape, []⟩
      pure (c.expect (next id ++ below))
  match t with
  | .scalar plain text =>
    some do
      let full ← c.fullTag? props
      let tag :=
        match full with
        | some f => Tag.ofFull f
        | none => scalarTag plain props.written.isSome text
      let (_, c) ← c.add parent props ⟨tag, .scalar text, []⟩
      pure (c.expect below)
  | .flowSequenceStart => collection .sequence .seq fun id => [.flowSequence id]
  | .flowMappingStart => collection .mapping .map fun id => [.flowMapping id]
  | .blockSequenceStart =>
    if role.inBlock then collection .sequence .seq fun id => [.sequence id] else none
  | .blockMappingStart =>
    if role.inBlock then collection .mapping .map fun id => [.mapping id] else none
  | .blockEntry =>
    if role = .mappingPart then
      collection .sequence .seq fun id => [.node .looseEntry (some id) {}, .looseSequence id]
    else none
  | .alias name =>
    if props.anchor.isNone && props.written.isNone then
      some (match c.anchors.find? fun a => a.1 = name with
        | some a => .ok ((c.attach parent a.2).expect below)
        | none => .error .malformed)
    else none
  | .anchor name =>
    if props.anchor.isNone then
      -- A tag in front is looked up now, since the properties are complete.
      some do
        let props := { props with anchor := some name }
        if props.written.isSome then let _ ← c.fullTag? props
        pure (c.expect (.node role parent props :: below))
    else none
  | .tag w =>
    if props.written.isNone then
      some do
        let props := { props with written := some w }
        if props.anchor.isSome then let _ ← c.fullTag? props
        pure (c.expect (.node role parent props :: below))
    else none
  | _ => none

/-! ## 6. Directives -/

/-- Takes a directive in front of a document. `next` is what is expected behind it, when it is known
    whether the version has been given. -/
def direct (c : Composition) (next : Bool → Expect) (version : Bool) (d : Directive) :
    Except Fault Composition :=
  match d with
  | .version major _ =>
    if version || major != 1 then .error .malformed
    else .ok (c.expect [next true])
  | .handle handle full =>
    if (c.fullForm? handle).isSome then .error .malformed
    else .ok ({ c with handles := (handle, full) :: c.handles }.expect [next version])
  | .other => .ok (c.expect [next version])

/-- Takes the first directive behind the document. The handles of the document are forgotten. -/
def directSurplus (c : Composition) (d : Directive) : Except Fault Composition :=
  { c with handles := [] }.direct .surplus false d

/-- Starts a document: the common handles mean what the directives do not say otherwise. -/
def startDocument (c : Composition) : Composition :=
  { c with handles := c.handles ++ commonHandles }

/-! ## 7. One token -/

/-- Takes a token where the next key of a block mapping is expected. -/
def inMapping (c : Composition) (id : NodeId) (t : Token) (below : List Expect) :
    Except Fault Composition :=
  match t with
  | .key => .ok (c.expect (.node .mappingPart (some id) {} :: .mappingValue id :: below))
  | .blockEnd => .ok (c.expect below)
  | _ => .error .malformed

/-- Takes a token where a flow mapping goes on with a comma or ends. -/
def inFlowMapping (c : Composition) (id : NodeId) (t : Token) (below : List Expect) :
    Except Fault Composition :=
  match t with
  | .flowEntry => .ok (c.expect (.flowMapping id :: below))
  | .flowMappingEnd => .ok (c.expect below)
  | _ => .error .malformed

/-- Takes a token as a node that cannot be left out. -/
def beginOr (c : Composition) (role : Role) (parent : Option NodeId) (t : Token)
    (below : List Expect) : Except Fault Composition :=
  (c.begin? role parent {} t below).getD (.error .malformed)

/-- Takes a token under some expectations, the next first. A token that ends an expectation goes
    to the one below it. -/
def take (t : Token) : List Expect → Composition → Except Fault Composition
  | [], _ => .error .malformed
  | .opening :: _, c =>
    match t with
    | .streamEnd => .ok (c.expect [.done])
    | .directive d => c.direct .marked false d
    | .documentStart =>
      .ok (c.startDocument.expect [.node (.document true) none {}, .closing])
    | _ => c.startDocument.beginOr (.document false) none t [.closing]
  | .marked version :: _, c =>
    match t with
    | .directive d => c.direct .marked version d
    | .documentStart =>
      .ok (c.startDocument.expect [.node (.document true) none {}, .closing])
    | _ => .error .malformed
  | .closing :: _, c =>
    match t with
    | .documentEnd => .ok (c.expect [.ending])
    | .streamEnd => .ok (c.expect [.done])
    | .directive d => c.directSurplus d
    | _ => .error .malformed
  | .ending :: _, c =>
    match t with
    | .documentEnd => .ok (c.expect [.ending])
    | .streamEnd => .ok (c.expect [.done])
    | .directive d => c.directSurplus d
    | _ => .error .malformed
  | .surplus version :: _, c =>
    match t with
    | .directive d => c.direct .surplus version d
    | _ => .error .malformed
  | .done :: _, _ => .error .malformed
  | .node role parent props :: below, c =>
    match c.begin? role parent props t below with
    | some r => r
    | none =>
      if props.anchor.isSome || props.written.isSome then do
        take t below (← c.addBare parent props)
      else if role.emptyBefore t then take t below (c.addEmpty parent)
      else .error .malformed
  | .sequence id :: below, c =>
    match t with
    | .blockEntry => .ok (c.expect (.node .entry (some id) {} :: .sequence id :: below))
    | .blockEnd => .ok (c.expect below)
    | _ => .error .malformed
  | .looseSequence id :: below, c =>
    match t with
    | .blockEntry => .ok (c.expect (.node .looseEntry (some id) {} :: .looseSequence id :: below))
    | _ => take t below c
  | .mapping id :: below, c => c.inMapping id t below
  | .mappingValue id :: below, c =>
    match t with
    | .value => .ok (c.expect (.node .mappingPart (some id) {} :: .mapping id :: below))
    | _ => (c.addEmpty (some id)).inMapping id t below
  | .flowSequence id :: below, c =>
    match t with
    | .flowSequenceEnd => .ok (c.expect below)
    | .key =>
      let (pair, c) := c.append (some id) ⟨.map, .mapping, []⟩
      .ok (c.expect
        (.node .pairKey (some pair) {} :: .pairValue pair :: .flowSequenceMore id :: below))
    | _ => c.beginOr .flowEntry (some id) t (.flowSequenceMore id :: below)
  | .flowSequenceMore id :: below, c =>
    match t with
    | .flowEntry => .ok (c.expect (.flowSequence id :: below))
    | .flowSequenceEnd => .ok (c.expect below)
    | _ => .error .malformed
  | .pairValue id :: below, c =>
    match t with
    | .value => .ok (c.expect (.node .pairValue (some id) {} :: below))
    | _ => take t below (c.addEmpty (some id))
  | .flowMapping id :: below, c =>
    match t with
    | .flowMappingEnd => .ok (c.expect below)
    | .key => .ok (c.expect (.node .flowKey (some id) {} :: .flowMappingValue id :: below))
    | _ => c.beginOr .flowEntry (some id) t (.flowMappingNull id :: below)
  | .flowMappingMore id :: below, c => c.inFlowMapping id t below
  | .flowMappingValue id :: below, c =>
    match t with
    | .value => .ok (c.expect (.node .flowValue (some id) {} :: .flowMappingMore id :: below))
    | _ => (c.addEmpty (some id)).inFlowMapping id t below
  | .flowMappingNull id :: below, c => (c.addEmpty (some id)).inFlowMapping id t below

/-- Takes a token. -/
def feed (c : Composition) (t : Token) : Except Fault Composition :=
  take t c.expected c

/-- The document of some tokens. An empty source has none. -/
def compose (tokens : List Token) (fault : Option Fault) : Except Fault (Option Composed) := do
  let c ← tokens.foldlM feed {}
  match fault with
  | some f => throw f
  | none =>
    match c.root with
    | none => pure none
    | some root => pure (some ⟨c.drafts.map Draft.node, root⟩)

end Composition

end Conform.Markup
