import Conform.Text.Quoted
import Conform.Number.Shortest
import Conform.Calendar

/-!
# Atoms: the scalar values of a record

What a record holds apart from its containers. This file fixes the kinds of value and the names
that reports give them, when two atoms are the same key of a mapping, and how an atom is shown when
a report names it.
-/

namespace Conform

/-! ## 1. Values and kinds -/

/-- A scalar value. -/
inductive Atom where
  | null
  | bool (b : Bool)
  | int (i : Int)
  | float (d : Double)
  | str (t : Text)
  | bytes (bs : List UInt8)
  | day (d : Day)
  | moment (m : Moment)
  deriving DecidableEq, Repr, Inhabited

/-- The kinds of value that reports tell apart. -/
inductive Kind where
  | null
  | boolean
  | integer
  | float
  | string
  | binary
  | date
  | time
  | array
  | tuple
  | set
  | hash
  deriving DecidableEq, Repr, Inhabited

/-- The name of a kind in a report. -/
def Kind.name : Kind → String
  | .null => "Null"
  | .boolean => "Boolean"
  | .integer => "Integer"
  | .float => "Float"
  | .string => "String"
  | .binary => "Binary"
  | .date => "Date"
  | .time => "Time"
  | .array => "Array"
  | .tuple => "tuple"
  | .set => "Set"
  | .hash => "Hash"

/-- The kind of a scalar value. -/
def Atom.kind : Atom → Kind
  | .null => .null
  | .bool _ => .boolean
  | .int _ => .integer
  | .float _ => .float
  | .str _ => .string
  | .bytes _ => .binary
  | .day _ => .date
  | .moment _ => .time

/-! ## 2. Keys -/

/-- What a key is to a mapping. Truth values, integers and finite doubles are one number line, on
    which two keys are the same if their exact values are; times with an offset are instants;
    nothing else crosses from one form to another. -/
inductive KeyClass where
  | null
  | number (q : Rat)
  | infinite (negative : Bool)
  | nan (origin : Double.Origin)
  | text (t : Text)
  | bytes (bs : List UInt8)
  | day (d : Day)
  | localTime (micros : Int)
  | instant (micros : Int)
  deriving DecidableEq

/-- The class of an atom as a key. -/
def Atom.keyClass : Atom → KeyClass
  | .null => .null
  | .bool b => .number (if b then 1 else 0)
  | .int i => .number i
  | .float (.nan o) => .nan o
  | .float (.infinite s) => .infinite s
  | .float (.finite s m e) => .number ((Double.value? (.finite s m e)).getD 0)
  | .str t => .text t
  | .bytes bs => .bytes bs
  | .day d => .day d
  | .moment t =>
    match t.instant? with
    | some i => .instant i
    | none => .localTime t.localMicros

/-- Are two atoms the same key? -/
def Atom.sameKey (a b : Atom) : Bool :=
  a.keyClass = b.keyClass

/-- An atom as a schema keeps it: a computed not-a-number is no key of any other document. -/
def Atom.keep : Atom → Atom
  | .float d => .float d.keep
  | a => a

/-! ## 3. Names in reports -/

/-- An atom as a report line names it. Only an integer can have too many digits for that. -/
def Atom.shown? : Atom → Option Text
  | .null => some "None"
  | .bool b => some (if b then "True" else "False")
  | .int i => (Numeral.written? i).map Text.ofChars
  | .float d => some (Text.ofChars (d.written .report))
  | .str t => some t
  | .bytes bs => some (Text.ofChars (Quoted.bytes bs))
  | .day d => some (Text.ofChars d.written)
  | .moment t => some (Text.ofChars t.written)

end Conform
