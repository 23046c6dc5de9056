import Conform.Base64
import Conform.Markup.Anchors
import Conform.Markup.Pen
import Conform.Markup.Tag

/-!
# Printing

A record as a document in block style: a marker in front, one entry or pair to a line, nested
collections indented by two columns, except that a sequence in a mapping stands under its key. Empty
collections are written as a pair of brackets. A key is written in front of its colon if it is short
and stands on one line, and behind a question mark otherwise.
-/

namespace Conform.Markup

/-! ## 1. Scalars -/

/-- Where a node is written. -/
inductive Spot where
  | root
  | entry
  /-- As a value of a mapping, or as a key behind a question mark. -/
  | part
  /-- As a key in front of its colon. -/
  | key
  deriving DecidableEq, Repr, Inhabited

/-- Is the spot inside a mapping? -/
def Spot.inMapping : Spot → Bool
  | .part => true
  | .key => true
  | _ => false

/-- The columns by which the lines of a scalar are indented inside a collection. -/
def scalarIndent : Option Nat → Nat
  | none => 2
  | some n => n + 2

/-- The columns by which a block collection is indented inside another one. -/
def blockIndent : Option Nat → Nat
  | none => 0
  | some n => n + 2

/-- A scalar other than a string and bytes, as it is written. -/
def plainForm : Atom → List Char
  | .null => "null".toList
  | .bool b => if b then "true".toList else "false".toList
  | .int i => Numeral.written i
  | .float d => d.written .document
  | .str _ => []
  | .bytes _ => []
  | .day d => d.written
  | .moment m => m.written

/-- The lines of bytes in base 64, each at an indentation. -/
def literalLines (indent : Nat) (cs : List Char) : List Char :=
  let lines := Numeral.splitOn '\n' cs
  lines.flatMap fun l => if l.isEmpty then [] else newLine indent ++ l

/-- Bytes as lines under a header; no bytes as an empty quoted scalar. -/
def bytesPiece (indent : Nat) (bs : List UInt8) : Piece :=
  let tag := Piece.word Tag.binary.short
  if bs.isEmpty then tag.andThen (doublePiece true indent [])
  else
    (tag.andThen (Piece.word ['|'])).andThen fun _ =>
      (literalLines indent (Base64.encode bs) ++ ['\n'], {})

/-- A scalar. A key in front of its colon is not folded. -/
def atomPiece (spot : Spot) (indent : Option Nat) (a : Atom) : Piece :=
  let folds := spot != .key
  let n := scalarIndent indent
  match a with
  | .str t =>
    match Style.ofText t with
    | .plain cs => plainPiece folds n cs
    | .single cs => singlePiece folds n cs
    | .double t => doublePiece folds n t
  | .bytes bs => bytesPiece n bs
  | a => plainPiece folds n (plainForm a)

/-! ## 2. Keys -/

/-- The name of an anchor. -/
def anchorName (n : Nat) : List Char :=
  'i' :: 'd' :: paddedDigits 3 n

/-- The tag that a scalar is written with or without. -/
def tagOfAtom : Atom → Tag
  | .null => .null
  | .bool _ => .bool
  | .int _ => .int
  | .float _ => .float
  | .str _ => .str
  | .bytes _ => .binary
  | .day _ => .timestamp
  | .moment _ => .timestamp

/-- The length of a scalar as a key: its tag counts even if it is not written. There is none for a
    scalar that is empty or has several lines. -/
def atomKeyLength? (a : Atom) : Option Nat :=
  let tag := (tagOfAtom a).short.length
  match a with
  | .str t => if t.isEmpty || Style.hasBreak t then none else some (tag + t.length)
  | .bytes _ => none
  | a => some (tag + (plainForm a).length)

/-- The length of a node as a key, if it can stand in front of its colon at all. -/
def keyLength? (t : Written) : Option Nat :=
  let anchored (anchor : Option Nat) (n : Nat) : Nat :=
    n + (anchor.map fun k => (anchorName k).length).getD 0
  match t with
  | .atom anchor a => (atomKeyLength? a).map (anchored anchor)
  | .list anchor items =>
    if items.isEmpty then some (anchored anchor Tag.seq.short.length) else none
  | .tuple anchor items =>
    if items.isEmpty then some (anchored anchor Tag.seq.short.length) else none
  | .set anchor items =>
    if items.isEmpty then some (anchored anchor Tag.set.short.length) else none
  | .map anchor entries =>
    if entries.isEmpty then some (anchored anchor Tag.map.short.length) else none
  | .back n => some (anchorName n).length

/-- Is a node written in front of its colon? Keys of 128 characters and more are not. -/
def isShortKey (t : Written) : Bool :=
  (keyLength? t).any (· < 128)

/-! ## 3. Nodes -/

/-- The mark of an anchor, if there is one. -/
def anchorPiece : Option Nat → Piece
  | none => Piece.nothing
  | some n => Piece.word ('&' :: anchorName n)

/-- A pair of brackets. -/
def bracketsPiece (opening closing : Char) : Piece :=
  (Piece.indicator [opening] true true false).andThen (Piece.indicator [closing] false false false)

/-- The columns of a sequence at a spot: inside a mapping it is not indented, unless it starts on
    the line of a question mark or a colon. -/
def sequenceIndent (spot : Spot) (indent : Option Nat) (p : Pen) : Nat :=
  if spot.inMapping && !p.fresh then indent.getD 0 else blockIndent indent

/-- The colon between a key in front and its value, or the start of the next line and a colon
    behind a key with a question mark. -/
def colonPiece (short : Bool) (indent : Nat) : Piece :=
  if short then Piece.indicator [':'] false false false
  else (Piece.indent indent).andThen (Piece.indicator [':'] true false true)

/-- The start of a line for a key, with a question mark unless the key is short. -/
def keyPiece (short : Bool) (indent : Nat) : Piece :=
  if short then Piece.indent indent
  else (Piece.indent indent).andThen (Piece.indicator ['?'] true false true)

/-- The start of a line for an entry. -/
def entryPiece (indent : Nat) : Piece :=
  (Piece.indent indent).andThen (Piece.indicator ['-'] true false true)

mutual

/-- A node at a spot, inside a collection at an indentation. -/
def nodePiece (spot : Spot) (indent : Option Nat) : Written → Piece
  | .back n => Piece.word ('*' :: anchorName n)
  | .atom anchor a => (anchorPiece anchor).andThen (atomPiece spot indent a)
  | .list anchor items =>
    (anchorPiece anchor).andThen <|
      if items.isEmpty then bracketsPiece '[' ']'
      else Piece.withPen fun p => entriesPiece (sequenceIndent spot indent p) items
  | .tuple anchor items =>
    (anchorPiece anchor).andThen <|
      if items.isEmpty then bracketsPiece '[' ']'
      else Piece.withPen fun p => entriesPiece (sequenceIndent spot indent p) items
  | .set anchor items =>
    ((anchorPiece anchor).andThen (Piece.word Tag.set.short)).andThen <|
      if items.isEmpty then bracketsPiece '{' '}' else elementsPiece (blockIndent indent) items
  | .map anchor entries =>
    (anchorPiece anchor).andThen <|
      if entries.isEmpty then bracketsPiece '{' '}' else pairsPiece (blockIndent indent) entries

/-- The entries of a sequence. -/
def entriesPiece (indent : Nat) : List Written → Piece
  | [] => Piece.nothing
  | t :: ts =>
    ((entryPiece indent).andThen (nodePiece .entry (some indent) t)).andThen
      (entriesPiece indent ts)

/-- The elements of a set, as keys of null. -/
def elementsPiece (indent : Nat) : List Written → Piece
  | [] => Piece.nothing
  | t :: ts =>
    let short := isShortKey t
    (((((keyPiece short indent).andThen
      (nodePiece (if short then .key else .part) (some indent) t)).andThen
      (colonPiece short indent)).andThen
      (atomPiece .part (some indent) .null))).andThen
      (elementsPiece indent ts)

/-- The pairs of a mapping. -/
def pairsPiece (indent : Nat) : List (Written × Written) → Piece
  | [] => Piece.nothing
  | (k, v) :: es =>
    let short := isShortKey k
    (((((keyPiece short indent).andThen
      (nodePiece (if short then .key else .part) (some indent) k)).andThen
      (colonPiece short indent)).andThen
      (nodePiece .part (some indent) v))).andThen
      (pairsPiece indent es)

end

/-! ## 4. Documents -/

/-- Is the root a scalar without quotes? Such a document ends with a marker. -/
def isOpenEnded : Written → Bool
  | .atom _ (.bytes _) => false
  | .atom _ (.str t) =>
    match Style.ofText t with
    | .plain _ => true
    | _ => false
  | .atom _ _ => true
  | _ => false

/-- A document. -/
def print (t : Written) : List Char :=
  let start := Piece.indicator "---".toList true false false
  let stop := if isOpenEnded t then
      (Piece.indicator "...".toList true false false).andThen (Piece.indent 0)
    else Piece.nothing
  ((((start.andThen (nodePiece .root none t)).andThen (Piece.indent 0)).andThen stop) {}).1

end Conform.Markup

namespace Conform

/-- A value as a document. -/
def Value.dump (v : Value) : Except Fault (List Char) :=
  if Markup.isWritable v then .ok (Markup.print (Markup.Written.ofValue v))
  else .error .noSuchValue

/-- An object of a graph as a document. -/
def Graph.dump (g : Graph) (r : Ref) : Except Fault (List Char) :=
  let t := g.spanning r
  if Markup.isWritable t then .ok (Markup.print (Markup.annotate t)) else .error .noSuchValue

end Conform
