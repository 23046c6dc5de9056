import Conform.Fault
import Conform.Text.CodePoint
import Conform.Text.DecimalDigit
import Conform.Markup.Scalar.Gap

/-!
# Quoted scalars

Scalars between single or double quotes. Both fold their line breaks. A single quote is written
twice between single quotes; between double quotes a backslash starts an escape, which can name any
code point, also a lone surrogate, or hide a line break.
-/

namespace Conform.Markup

/-! ## 1. Escapes -/

/-- What a one-letter escape stands for. -/
def letterEscape? : Char → Option Char
  | '0' => some '\x00'
  | 'a' => some '\x07'
  | 'b' => some '\x08'
  | 't' => some '\t'
  | '\t' => some '\t'
  | 'n' => some '\n'
  | 'v' => some '\x0b'
  | 'f' => some '\x0c'
  | 'r' => some '\r'
  | 'e' => some '\x1b'
  | ' ' => some ' '
  | '"' => some '"'
  | '\\' => some '\\'
  | '/' => some '/'
  | 'N' => some '\x85'
  | '_' => some '\xa0'
  | 'L' => some '\u2028'
  | 'P' => some '\u2029'
  | _ => none

/-- How many digits a numeric escape has. -/
def escapeWidth? : Char → Option Nat
  | 'x' => some 2
  | 'u' => some 4
  | 'U' => some 8
  | _ => none

/-- The code point of a numeric escape. There are none from `0x110000`; numbers that do not fit 31
    bits cannot even be looked up. -/
def numericEscape (digits : List Char) : Except Fault CodePoint :=
  match digits.mapM (baseDigit? 16) with
  | none => .error .malformed
  | some ds =>
    let n := ds.foldl (fun n d => n * 16 + d) 0
    match CodePoint.ofNat? n with
    | some p => .ok p
    | none => .error (if n ≤ 0x7FFFFFFF then .noSuchValue else .outOfRange)

/-! ## 2. Reading -/

/-- The text so far, newest first, after a gap and one more code point. -/
def pushAfter (gap : Gap) (p : CodePoint) (reversed : Text) : Text :=
  p :: ((Text.ofChars gap.folded).reverse ++ reversed)

/-- Reads on in a scalar between single quotes. -/
def readSingleFrom (gap : Gap) (reversed : Text) :
    List Char → Place → Except Fault (Text × Cursor)
  | [], _ => .error .malformed
  | '\'' :: '\'' :: cs, p =>
    readSingleFrom .none (pushAfter gap (.char '\'') reversed) cs ((p.next '\'').next '\'')
  | c :: cs, p =>
    if c = '\'' then
      .ok (((Text.ofChars gap.folded).reverse ++ reversed).reverse, ⟨cs, p.next c⟩)
    else if isSpacing c then readSingleFrom (gap.addSpacing c) reversed cs (p.next c)
    else if isBreak c then
      if isHalfBreak c cs then readSingleFrom gap reversed cs p
      else if startsMarker cs then .error .malformed
      else readSingleFrom (gap.addBreak (readBreak c)) reversed cs (p.next c)
    else readSingleFrom .none (pushAfter gap (.char c) reversed) cs (p.next c)

/-- Reads on in a scalar between double quotes. The digits of a numeric escape are taken one by
    one: `digits` are those so far, newest first, and `missing` is how many are still to come. -/
def readDoubleFrom (missing : Nat) (digits : List Char) (gap : Gap) (reversed : Text) :
    List Char → Place → Except Fault (Text × Cursor)
  | [], _ => .error .malformed
  | c :: cs, p =>
    match missing with
    | more + 1 =>
      if (baseDigit? 16 c).isNone then .error .malformed
      else if more = 0 then do
        let q ← numericEscape (c :: digits).reverse
        readDoubleFrom 0 [] .none (q :: reversed) cs (p.next c)
      else readDoubleFrom more (c :: digits) .none reversed cs (p.next c)
    | 0 =>
      if c = '"' then
        .ok (((Text.ofChars gap.folded).reverse ++ reversed).reverse, ⟨cs, p.next c⟩)
      else if isSpacing c then readDoubleFrom 0 [] (gap.addSpacing c) reversed cs (p.next c)
      else if isBreak c then
        if isHalfBreak c cs then readDoubleFrom 0 [] gap reversed cs p
        else if startsMarker cs then .error .malformed
        else readDoubleFrom 0 [] (gap.addBreak (readBreak c)) reversed cs (p.next c)
      else if c = '\\' then
        let reversed := (Text.ofChars gap.folded).reverse ++ reversed
        match cs with
        | [] => .error .malformed
        | e :: rest =>
          let q := (p.next c).next e
          match letterEscape? e, escapeWidth? e with
          | some l, _ => readDoubleFrom 0 [] .none (.char l :: reversed) rest q
          | none, some width => readDoubleFrom width [] .none reversed rest q
          | none, none =>
            if isBreak e then
              match e, rest with
              | '\r', '\n' :: rest =>
                if startsMarker rest then .error .malformed
                else readDoubleFrom 0 [] (.breaks none []) reversed rest q
              | _, rest =>
                if startsMarker rest then .error .malformed
                else readDoubleFrom 0 [] (.breaks none []) reversed rest q
            else .error .malformed
      else readDoubleFrom 0 [] .none (pushAfter gap (.char c) reversed) cs (p.next c)

/-- Reads a scalar from its opening quote on. -/
def readQuoted (double : Bool) (c : Cursor) : Except Fault (Text × Cursor) :=
  let inside := c.drop 1
  if double then readDoubleFrom 0 [] .none [] inside.rest inside.place
  else readSingleFrom .none [] inside.rest inside.place

end Conform.Markup
