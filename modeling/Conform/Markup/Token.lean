import Conform.Fault
import Conform.Text.CodePoint
import Conform.Text.DecimalDigit
import Conform.Number.Numeral
import Conform.Markup.Source

/-!
# Tokens

The words of a document. Besides what is written, there are tokens for what the layout means: where
a block collection starts and ends, and which scalar turns out to be a key. This file fixes the
tokens and reads the small ones, which lie within a line: names, tags and directives.
-/

namespace Conform.Markup

/-! ## 1. The tokens -/

/-- A tag as it is written: a handle, unless it is in full or bare, and the rest. -/
structure WrittenTag where
  handle : Option (List Char)
  suffix : List Char
  deriving DecidableEq, Repr, Inhabited

/-- A line that starts with a percent sign. -/
inductive Directive where
  | version (major minor : Nat)
  | handle (handle full : List Char)
  | other
  deriving DecidableEq, Repr, Inhabited

/-- A word of a document. -/
inductive Token where
  | directive (d : Directive)
  | documentStart
  | documentEnd
  | streamEnd
  | blockSequenceStart
  | blockMappingStart
  | blockEnd
  | flowSequenceStart
  | flowSequenceEnd
  | flowMappingStart
  | flowMappingEnd
  | blockEntry
  | flowEntry
  | key
  | value
  | alias (name : List Char)
  | anchor (name : List Char)
  | tag (t : WrittenTag)
  | scalar (plain : Bool) (text : Text)
  deriving DecidableEq, Repr, Inhabited

/-! ## 2. Names -/

/-- May a name end in front of these characters? -/
def endsName : List Char → Bool
  | [] => true
  | c :: _ => isSpacing c || isBreak c || "?:,]\x7d%@`".toList.contains c

/-- Reads the name of an anchor or an alias, behind its mark. -/
def readName (c : Cursor) : Except Fault (List Char × Cursor) :=
  let (name, after) := c.takeWhile isNameChar
  if !name.isEmpty && endsName after.rest then .ok (name, after) else .error .malformed

/-! ## 3. Tags -/

/-- May the character stand in a tag as it is? -/
def isTagChar (c : Char) : Bool :=
  isNameChar c || ";/?:@&=+$,.!~*'()[]".toList.contains c

/-- Reads the rest of a tag, with its escapes: every run of `%NN` holds the bytes of characters.
    `bytes` are those of the run so far, newest first. -/
def readTagText (bytes : List UInt8) : List Char → Except Fault (List Char × List Char)
  | '%' :: a :: b :: rest =>
    match baseDigit? 16 a, baseDigit? 16 b with
    | some x, some y => readTagText (UInt8.ofNat (x * 16 + y) :: bytes) rest
    | _, _ => .error .malformed
  | '%' :: _ => .error .malformed
  | cs => do
    let front ←
      match String.fromUTF8? ⟨bytes.reverse.toArray⟩ with
      | some s => pure s.toList
      | none => throw .malformed
    match cs with
    | [] => pure (front, [])
    | c :: rest =>
      if isTagChar c then
        let (more, after) ← readTagText [] rest
        pure (front ++ c :: more, after)
      else pure (front, c :: rest)

/-- Reads the text of a tag, which is not empty. -/
def readTagRest (c : Cursor) : Except Fault (List Char × Cursor) := do
  let (text, rest) ← readTagText [] c.rest
  if text.isEmpty then throw .malformed
  pure (text, c.past (c.rest.take (c.rest.length - rest.length)) rest)

/-- Reads a handle: an exclamation mark, or a name between two. In front of a space it is the
    mark alone. -/
def readHandle (c : Cursor) : Except Fault (List Char × Cursor) :=
  let rest := c.rest.drop 1
  let name := rest.takeWhile isNameChar
  if c.rest.head? = some '!' then
    if rest.head? = some ' ' then .ok (['!'], c.drop 1)
    else if (rest.dropWhile isNameChar).head? = some '!' then
      .ok ('!' :: (name ++ ['!']), c.drop (name.length + 2))
    else .error .malformed
  else .error .malformed

/-- Does a second exclamation mark come before the next space or break? -/
def hasHandle : List Char → Bool
  | [] => false
  | c :: cs => if c = ' ' || isBreak c then false else c = '!' || hasHandle cs

/-- Reads a tag that is written in full between angle brackets. -/
def readFullTag (c : Cursor) : Except Fault (WrittenTag × Cursor) := do
  let (suffix, after) ← readTagRest (c.drop 2)
  if after.rest.head? = some '>' then pure (⟨none, suffix⟩, after.drop 1) else throw .malformed

/-- The handle of a tag, which is the mark alone unless there is a second one. -/
def readTagHandle (c : Cursor) : Except Fault (List Char × Cursor) :=
  if hasHandle (c.rest.drop 1) then readHandle c else .ok (['!'], c.drop 1)

/-- Reads a tag that is written as a handle and a suffix. -/
def readShortTag (c : Cursor) : Except Fault (WrittenTag × Cursor) := do
  let (handle, after) ← readTagHandle c
  let (suffix, after) ← readTagRest after
  pure (⟨some handle, suffix⟩, after)

/-- Reads a tag up to where it ends: in full, bare, or as a handle and a suffix. -/
def readTagForm (c : Cursor) : Except Fault (WrittenTag × Cursor) :=
  let rest := c.rest.drop 1
  if rest.head? = some '<' then readFullTag c
  else if endsWord rest then .ok (⟨none, ['!']⟩, c.drop 1)
  else readShortTag c

/-- Reads a tag, from its mark on. A space or a break follows. -/
def readTag (c : Cursor) : Except Fault (WrittenTag × Cursor) := do
  let (tag, after) ← readTagForm c
  if endsField after.rest then pure (tag, after) else throw .malformed

/-! ## 4. Directives -/

/-- Reads a number of a version. Its digits are limited as those of all numerals are. -/
def readVersionNumber (c : Cursor) : Except Fault (Nat × Cursor) :=
  let (ds, after) := c.takeWhile fun d => (plainDigit? d).isSome
  if ds.isEmpty then .error .malformed
  else
    match Numeral.natural? 10 ds with
    | some n => .ok (n, after)
    | none => .error .noSuchValue

/-- Reads the version behind its name. -/
def readVersion (c : Cursor) : Except Fault (Directive × Cursor) := do
  let (major, after) ← readVersionNumber c.skipSpaces
  if after.rest.head? = some '.' then
    let (minor, after) ← readVersionNumber (after.drop 1)
    if endsField after.rest then pure (.version major minor, after) else throw .malformed
  else throw .malformed

/-- Reads the handle and the full form behind the name of a tag directive. -/
def readHandleDirective (c : Cursor) : Except Fault (Directive × Cursor) := do
  let (handle, after) ← readHandle c.skipSpaces
  if after.rest.head? = some ' ' then
    let (full, after) ← readTagRest after.skipSpaces
    if endsField after.rest then pure (.handle handle full, after) else throw .malformed
  else throw .malformed

/-- The cursor behind a comment, if there is one. -/
def skipComment (c : Cursor) : Cursor :=
  if c.rest.head? = some '#' then c.skipWhile (!isBreak ·) else c

/-- The cursor behind the end of a line that holds only spaces and a comment. -/
def skipRestOfLine (c : Cursor) : Except Fault Cursor :=
  let c := skipComment c.skipSpaces
  if endsLine c.rest then .ok c.skipBreak else .error .malformed

/-- Reads what follows the name of a directive on its line. Unknown ones are skipped. -/
def readDirectiveNamed (name : List Char) (c : Cursor) : Except Fault (Directive × Cursor) :=
  if name = "YAML".toList then readVersion c
  else if name = "TAG".toList then readHandleDirective c
  else .ok (.other, c.skipWhile (!isBreak ·))

/-- Reads a directive, behind its percent sign, and the line that it stands on. -/
def readDirective (c : Cursor) : Except Fault (Directive × Cursor) :=
  let (name, after) := c.takeWhile isNameChar
  if name.isEmpty || !endsField after.rest then .error .malformed
  else do
    let (d, after) ← readDirectiveNamed name after
    pure (d, ← skipRestOfLine after)

end Conform.Markup
