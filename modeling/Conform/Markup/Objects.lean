import Conform.Graph
import Conform.Markup.Node
import Conform.Markup.Scalar.Meaning

/-!
# From nodes to objects

Every node that is needed becomes one object, which carries the number of its node; the pairs of an
ordered mapping become tuples of their own. A collection first exists empty and is filled later, in
the order in which the collections are met; so a collection can be a part of itself, and of two
faults the one met first in that order counts.

When a mapping is filled, the mappings that it merges are put in front of its own pairs. Merging
changes the node, and a merged mapping is itself merged first.
-/

namespace Conform.Markup

/-! ## 1. The state -/

/-- The objects made so far. -/
structure Making where
  nodes : Array Node
  /-- The objects, under the numbers of their nodes; further ones behind them. -/
  objects : Array (Option Object)
  /-- The collections that have been met in this round and are to be filled in the next one,
      newest first. -/
  due : List NodeId := []
  deriving Repr, Inhabited

namespace Making

/-- The node with a number. -/
def node (m : Making) (id : NodeId) : Node :=
  (m.nodes[id]?).getD default

/-- The object made of a node. -/
def object? (m : Making) (id : Ref) : Option Object :=
  (m.objects[id]?).join

/-- Puts an object under a number. -/
def put (m : Making) (id : Ref) (o : Object) : Making :=
  { m with objects := m.objects.set! id (some o) }

/-- Adds an object behind all others. -/
def append (m : Making) (o : Object) : Ref × Making :=
  (m.objects.size, { m with objects := m.objects.push (some o) })

/-- The pairs of a mapping node. -/
def pairs (m : Making) (id : NodeId) : List (NodeId × NodeId) :=
  match (m.node id).content with
  | .mapping ps => ps
  | _ => []

/-- Is the node a mapping? -/
def isMapping (m : Making) (id : NodeId) : Bool :=
  match (m.node id).content with
  | .mapping _ => true
  | _ => false

/-- Gives a mapping node other pairs. -/
def setPairs (m : Making) (id : NodeId) (ps : List (NodeId × NodeId)) : Making :=
  { m with nodes := m.nodes.modify id fun n => { n with content := .mapping ps } }

/-! ## 2. Merging -/

/-- Does the key of a pair merge what its value names? -/
def merges (m : Making) (p : NodeId × NodeId) : Bool :=
  (m.node p.1).tag = .merge

/-- Takes the first merging pair out of some pairs: its value, and the pairs without it. -/
def splitMerge (m : Making) : List (NodeId × NodeId) → Option (NodeId × List (NodeId × NodeId))
  | [] => none
  | p :: ps =>
    if m.merges p then some (p.2, ps)
    else (m.splitMerge ps).map fun r => (r.1, p :: r.2)

/-- How many merging pairs the nodes hold. -/
def mergeCount (m : Making) : Nat :=
  m.nodes.foldl (fun n x =>
    match x.content with
    | .mapping ps => n + ps.countP m.merges
    | _ => n) 0

/-- Makes the value keys of some pairs strings. -/
def plainKeys (m : Making) (ps : List (NodeId × NodeId)) : Making :=
  { m with
    nodes := ps.foldl (fun ns p =>
      ns.modify p.1 fun n => if n.tag = .value then { n with tag := .str } else n) m.nodes }

/-- Puts merged pairs in front of the pairs of a mapping node, which merges no more. -/
def settlePairs (m : Making) (merged : List (NodeId × NodeId)) (id : NodeId) : Making :=
  let own := m.pairs id
  (m.plainKeys own).setPairs id (merged ++ own)

/-- Flattens the mappings of a list, each with the given function. The result are their pairs,
    the last mapping first. -/
def flattenEach (flatten : NodeId → Making → Except Fault Making)
    (merged : List (NodeId × NodeId)) (m : Making) :
    List NodeId → Except Fault (List (NodeId × NodeId) × Making)
  | [] => .ok (merged, m)
  | id :: ids => do
    if !m.isMapping id then throw .malformed
    let m ← flatten id m
    flattenEach flatten (m.pairs id ++ merged) m ids

/-- Merges into a mapping node what its merging pairs name, as far as the number allows. A merging
    pair is taken out before its value is looked at, so the number of merging pairs bounds the
    steps, also where a mapping merges itself. `merged` are the pairs found so far. -/
def flattenFrom : Nat → List (NodeId × NodeId) → NodeId → Making → Except Fault Making
  | 0, merged, id, m => .ok (m.settlePairs merged id)
  | n + 1, merged, id, m =>
    match m.splitMerge (m.pairs id) with
    | none => .ok (m.settlePairs merged id)
    | some (source, rest) => do
      let m := m.setPairs id rest
      let (found, m) ←
        match (m.node source).content with
        | .mapping _ => do
          let m ← flattenFrom n [] source m
          pure (m.pairs source, m)
        | .sequence items => flattenEach (flattenFrom n []) [] m items
        | .scalar _ => throw .malformed
      flattenFrom n (merged ++ found) id m

/-- Merges into a mapping node what its merging pairs name. -/
def flatten (id : NodeId) (m : Making) : Except Fault Making :=
  flattenFrom (if (m.pairs id).any m.merges then m.mergeCount else 0) [] id m

/-! ## 3. Making an object -/

/-- The text of a node that is read as a scalar. A mapping has the text of its value key. The
    number bounds how often a value key leads to another mapping: more often than there are nodes,
    and the way has no end. -/
def textFrom (m : Making) : Nat → NodeId → Except Fault Text
  | 0, _ => .error .endless
  | n + 1, id =>
    match (m.node id).content with
    | .scalar t => .ok t
    | .sequence _ => .error .malformed
    | .mapping ps =>
      match ps.find? fun p => (m.node p.1).tag = .value with
      | some p => textFrom m n p.2
      | none => .error .malformed

/-- The text of a node that is read as a scalar. -/
def text (m : Making) (id : NodeId) : Except Fault Text :=
  m.textFrom (m.nodes.size + 1) id

/-- The empty collection that a tag asks for. -/
def emptyOf? : Tag → Option Object
  | .seq => some (.list [])
  | .omap => some (.list [])
  | .pairs => some (.list [])
  | .map => some (.map [])
  | .set => some (.set [])
  | _ => none

/-- Makes the object of a node, if it is not there yet. A collection is made empty and falls due. -/
def make (id : NodeId) (m : Making) : Except Fault Making :=
  if (m.object? id).isSome then .ok m
  else
    let n := m.node id
    match emptyOf? n.tag with
    | some o => .ok { m.put id o with due := id :: m.due }
    | none =>
      match n.tag with
      | .merge => .error .malformed
      | .value => .error .malformed
      | .other => .error .malformed
      | tag => do
        let t ← m.text id
        if tag = .timestamp && m.isMapping id then throw .notText
        match Scalar.valueOf? (.computed id) tag t with
        | some r => return m.put id (.atom (← r))
        | none => throw .malformed

/-- Makes the objects of some nodes, in their order. -/
def makeEach : List NodeId → Making → Except Fault Making
  | [], m => .ok m
  | id :: ids, m => do makeEach ids (← make id m)

/-! ## 4. Filling a collection -/

/-- The scalar that a node has become. -/
def atom? (m : Making) (id : NodeId) : Option Atom :=
  match m.object? id with
  | some (.atom a) => some a
  | _ => none

/-- Are two nodes the same key? -/
def sameKey (m : Making) (a b : NodeId) : Bool :=
  match m.atom? a, m.atom? b with
  | some x, some y => x.sameKey y
  | _, _ => false

/-- Makes the keys and values of some pairs, in their order, and gathers them. A collection cannot
    be a key. -/
def makePairs (entries : List (Ref × Ref)) :
    List (NodeId × NodeId) → Making → Except Fault (List (Ref × Ref) × Making)
  | [], m => .ok (entries, m)
  | (k, v) :: ps, m => do
    let m ← make k m
    if (m.atom? k).isNone then throw .malformed
    let m ← make v m
    makePairs (insertPair m.sameKey k v entries) ps m

/-- Makes the tuples of an ordered mapping: every entry is a mapping of one pair. -/
def makeTuples (tuples : List Ref) :
    List NodeId → Making → Except Fault (List Ref × Making)
  | [], m => .ok (tuples.reverse, m)
  | id :: ids, m =>
    match (m.node id).content with
    | .mapping [(k, v)] => do
      let m ← make v (← make k m)
      let (r, m) := m.append (.tuple [k, v])
      makeTuples (r :: tuples) ids m
    | _ => .error .malformed

/-- The entries of a mapping node, with everything merged. -/
def entries (id : NodeId) (m : Making) : Except Fault (List (Ref × Ref) × Making) :=
  if m.isMapping id then do
    let m ← flatten id m
    makePairs [] (m.pairs id) m
  else .error .malformed

/-- Fills a collection. -/
def fill (id : NodeId) (m : Making) : Except Fault Making :=
  let n := m.node id
  match n.tag with
  | .map => do
    let (es, m) ← entries id m
    pure (m.put id (.map es))
  | .set => do
    -- The elements have no order that could be relied on; they are kept as they come.
    let (es, m) ← entries id m
    pure (m.put id (.set (es.map (·.1))))
  | .seq =>
    match n.content with
    | .sequence items => do
      let m ← makeEach items m
      pure (m.put id (.list items))
    | _ => .error .malformed
  | _ =>
    match n.content with
    | .sequence items => do
      let (tuples, m) ← makeTuples [] items m
      pure (m.put id (.list tuples))
    | _ => .error .malformed

/-- Fills some collections, in their order. -/
def fillEach : List NodeId → Making → Except Fault Making
  | [], m => .ok m
  | id :: ids, m => do fillEach ids (← fill id m)

/-- Fills all collections, round by round: those that fall due while one round is filled make the
    next. Every round has a collection that no round before had, so their number is bounded by the
    nodes. -/
def fillAll : Nat → Making → Except Fault Making
  | 0, m => .ok m
  | n + 1, m =>
    match m.due with
    | [] => .ok m
    | due => do fillAll n (← fillEach due.reverse { m with due := [] })

end Making

/-- The graph of a document, and its root in it. -/
structure Document where
  graph : Graph
  root : Ref
  deriving Repr, Inhabited

/-- The graph that the nodes of a document stand for. -/
def Composed.document (c : Composed) : Except Fault Document := do
  let start : Making := { nodes := c.nodes, objects := Array.replicate c.nodes.size none }
  let m ← Making.fillAll (c.nodes.size + 1) (← Making.make c.root start)
  pure ⟨⟨m.objects.map fun o => o.getD (.atom .null)⟩, c.root⟩

end Conform.Markup
