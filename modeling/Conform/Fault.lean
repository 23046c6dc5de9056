/-!
# Faults

Why a document cannot be read or a value cannot be written. A fault is a cause; how it is worded
or classified is the business of whoever shows it. Only `malformed` is a fault of the document as
a document; the others are faults of single scalars in a document that is well formed.
-/

namespace Conform

/-- Why reading or writing failed. -/
inductive Fault where
  /-- The text is no document: its characters, layout, structure, tags or anchors are wrong. -/
  | malformed
  /-- A scalar denotes no value of its kind: a day that does not exist, an unreadable numeral, too
      many digits, a code point beyond the last one. -/
  | noSuchValue
  /-- A scalar tagged as a truth value is none of the words for one. -/
  | noSuchWord
  /-- A scalar tagged as a number has no text where its sign or digits should be. -/
  | missingDigits
  /-- A scalar tagged as a time does not have the form of one. -/
  | noSuchTime
  /-- A number is beyond the range in which it has to be computed. -/
  | outOfRange
  /-- A mapping stands where the text of a time is needed. -/
  | notText
  /-- A mapping is read as a scalar, and its text is that of a mapping that leads back to it. -/
  | endless
  deriving DecidableEq, Repr, Inhabited

end Conform
