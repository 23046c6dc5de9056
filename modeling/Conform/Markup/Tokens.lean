import Conform.Markup.Layout
import Conform.Markup.Scalar.Plain
import Conform.Markup.Scalar.Quoted
import Conform.Markup.Scalar.Block

/-!
# From characters to tokens

One step of reading skips what means nothing, closes the block collections that the next token
leaves, and takes that token. This file fixes the step for every kind of token and runs it to the
end of the source. The result holds the tokens that are settled when reading stops, and the fault
that stopped it: what uses the tokens may fail before it meets the fault.
-/

namespace Conform.Markup

/-! ## 1. What means nothing -/

/-- Skips spaces, comments and breaks. The result says whether a line has ended. -/
def skipTrivia (inComment broken : Bool) : List Char → Place → Bool × Cursor
  | [], p => (broken, ⟨[], p⟩)
  | c :: cs, p =>
    if isBreak c then
      if isHalfBreak c cs then skipTrivia inComment broken cs p
      else skipTrivia false true cs (p.next c)
    else if inComment || c = ' ' then skipTrivia inComment broken cs (p.next c)
    else if c = '#' then skipTrivia true broken cs (p.next c)
    else (broken, ⟨c :: cs, p⟩)

namespace Layout

/-- The layout in front of the next token. In block context a key may start on a new line. -/
def toNextToken (s : Layout) : Layout :=
  let (broken, c) := skipTrivia false false s.cursor.rest s.cursor.place
  { s with cursor := c, keyAllowed := s.keyAllowed || (broken && !s.inFlow) }

/-! ## 2. The kinds of token -/

/-- The end of the source closes everything. -/
def takeEnd (s : Layout) : Except Fault Layout := do
  let s ← (s.unwind (-1)).dropCandidate
  pure ({ s with keyAllowed := false }.push .streamEnd)

/-- A directive closes everything, and no key can follow it on its line. -/
def takeDirective (s : Layout) : Except Fault Layout := do
  let s ← (s.unwind (-1)).dropCandidate
  let (d, c) ← readDirective (s.cursor.drop 1)
  pure (({ s with keyAllowed := false }.push (.directive d)).moveTo c)

/-- A marker of three characters closes everything. -/
def takeMarker (s : Layout) (t : Token) : Except Fault Layout := do
  let s ← (s.unwind (-1)).dropCandidate
  pure (({ s with keyAllowed := false }.push t).moveTo (s.cursor.drop 3))

/-- The bracket that opens a flow collection can itself be a key. -/
def takeFlowStart (s : Layout) (t : Token) : Except Fault Layout := do
  let s ← s.noteCandidate
  pure (({ s with keyAllowed := true, candidates := none :: s.candidates }.push t).moveTo
    (s.cursor.drop 1))

/-- The bracket that closes a flow collection. There must be one to close. -/
def takeFlowEnd (s : Layout) (t : Token) : Except Fault Layout := do
  let s ← s.dropCandidate
  if !s.inFlow then throw .malformed
  pure (({ s with keyAllowed := false, candidates := s.candidates.drop 1 }.push t).moveTo
    (s.cursor.drop 1))

/-- A comma of a flow collection. -/
def takeFlowEntry (s : Layout) : Except Fault Layout := do
  let s ← s.dropCandidate
  pure (({ s with keyAllowed := true }.push .flowEntry).moveTo (s.cursor.drop 1))

/-- Opens a block collection at the next token, if that is further in. It must be where a key may
    start. -/
def openBlock (s : Layout) (t : Token) : Except Fault Layout :=
  if s.inFlow then .ok s
  else if !s.keyAllowed then .error .malformed
  else
    let column := s.cursor.place.column
    .ok (if s.opens column then (s.indentTo column).push t else s)

/-- The hyphen of a block entry. -/
def takeBlockEntry (s : Layout) : Except Fault Layout := do
  let s ← s.openBlock .blockSequenceStart
  let s ← s.dropCandidate
  pure (({ s with keyAllowed := true }.push .blockEntry).moveTo (s.cursor.drop 1))

/-- The question mark of an explicit key. -/
def takeKey (s : Layout) : Except Fault Layout := do
  let s ← s.openBlock .blockMappingStart
  let s ← s.dropCandidate
  pure (({ s with keyAllowed := !s.inFlow }.push .key).moveTo (s.cursor.drop 1))

/-- The layout in which a candidate is a key. In block context it opens a mapping at its column, if
    that is further in. -/
def makeKey (s : Layout) (k : Candidate) : Layout :=
  let s := { s.setCandidate none with keyAllowed := false }.insertAt k.position .key
  let column := k.place.column
  if !s.inFlow && s.opens column then
    (s.indentTo column).insertAt k.position .blockMappingStart
  else s

/-- The layout in front of the colon of a value. If there is a candidate, it is the key. -/
def toValue (s : Layout) : Except Fault Layout :=
  match s.candidate? with
  | some k => .ok (s.makeKey k)
  | none => do
    let s ← s.openBlock .blockMappingStart
    pure { s with keyAllowed := !s.inFlow }

/-- The colon of a value. -/
def takeValue (s : Layout) : Except Fault Layout := do
  let s ← s.toValue
  pure ((s.push .value).moveTo (s.cursor.drop 1))

/-- An alias or an anchor. -/
def takeName (s : Layout) (t : List Char → Token) : Except Fault Layout := do
  let s ← s.noteCandidate
  let (name, c) ← readName (s.cursor.drop 1)
  pure (({ s with keyAllowed := false }.push (t name)).moveTo c)

/-- A tag. -/
def takeTag (s : Layout) : Except Fault Layout := do
  let s ← s.noteCandidate
  let (t, c) ← readTag s.cursor
  pure (({ s with keyAllowed := false }.push (.tag t)).moveTo c)

/-- A block scalar. A key may start behind it, since it ends with its line. -/
def takeBlock (s : Layout) (folded : Bool) : Except Fault Layout := do
  let s ← s.dropCandidate
  let (text, c) ← readBlock folded s.indent s.cursor
  pure (({ s with keyAllowed := true }.push (.scalar false (Text.ofChars text))).moveTo c)

/-- A quoted scalar. -/
def takeQuoted (s : Layout) (double : Bool) : Except Fault Layout := do
  let s ← s.noteCandidate
  let (text, c) ← readQuoted double s.cursor
  pure (({ s with keyAllowed := false }.push (.scalar false text)).moveTo c)

/-- A plain scalar. A key may start behind it only on another line. -/
def takePlain (s : Layout) : Except Fault Layout := do
  let s ← s.noteCandidate
  let r := readPlain s.inFlow (s.indent + 1) s.cursor
  pure (({ s with keyAllowed := r.broken }.push (.scalar true (Text.ofChars r.text))).moveTo r.after)

/-! ## 3. The step -/

/-- Takes the token in front of the cursor. -/
def takeToken (s : Layout) : Except Fault Layout :=
  match s.cursor.rest with
  | [] => s.takeEnd
  | c :: rest =>
    let atStart : Bool := s.cursor.place.column = 0
    if c = '%' && atStart then s.takeDirective
    else if atStart && startsMarker (c :: rest) then
      s.takeMarker (if c = '-' then .documentStart else .documentEnd)
    else if c = '[' then s.takeFlowStart .flowSequenceStart
    else if c = '{' then s.takeFlowStart .flowMappingStart
    else if c = ']' then s.takeFlowEnd .flowSequenceEnd
    else if c = '}' then s.takeFlowEnd .flowMappingEnd
    else if c = ',' then s.takeFlowEntry
    else if c = '-' && endsWord rest then s.takeBlockEntry
    else if c = '?' && (s.inFlow || endsWord rest) then s.takeKey
    else if c = ':' && (s.inFlow || endsWord rest) then s.takeValue
    else if c = '*' then s.takeName .alias
    else if c = '&' then s.takeName .anchor
    else if c = '!' then s.takeTag
    else if c = '|' && !s.inFlow then s.takeBlock false
    else if c = '>' && !s.inFlow then s.takeBlock true
    else if c = '\'' then s.takeQuoted false
    else if c = '"' then s.takeQuoted true
    else if startsPlain s.inFlow (c :: rest) then s.takePlain
    else .error .malformed

/-- Takes one token and what the layout adds to it. -/
def step (s : Layout) : Except Fault Layout := do
  let s ← s.toNextToken.dropStale
  (s.unwind s.cursor.place.column).takeToken

end Layout

/-! ## 4. The whole source -/

/-- The tokens of a source, as far as they are settled, and the fault that stopped reading. -/
structure Tokens where
  tokens : List Token
  fault : Option Fault
  deriving Repr, Inhabited

/-- Reads on until the source ends. Every step but the last takes a character, so their number is
    bounded by the characters left. -/
def tokensFrom : Nat → Layout → Tokens
  | 0, s => ⟨s.settled, some .malformed⟩
  | n + 1, s =>
    match s.dropStale with
    | .error f => ⟨s.settled, some f⟩
    | .ok s =>
      match s.step with
      | .error f => ⟨s.settled, some f⟩
      | .ok s =>
        match s.reversed with
        | .streamEnd :: _ => ⟨s.reversed.reverse, none⟩
        | _ => tokensFrom n s

/-- The tokens of a source. -/
def tokensOf (source : List Char) : Tokens :=
  tokensFrom (source.length + 1) (Layout.start source)

end Conform.Markup
