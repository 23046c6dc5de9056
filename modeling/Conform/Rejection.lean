import Conform.Fault
import Conform.Report

/-!
# Rejections

What the library itself says about a schema or a collection that it does not accept: a message and
the lines it consists of. A rejection may be due to a document that could not be read, which is
noted. Faults of reading that are none of the document as such are not turned into rejections.
-/

namespace Conform

/-- What a rejection is about. -/
inductive Subject where
  | anything
  | schema
  | collection
  deriving DecidableEq, Repr, Inhabited

/-- Why a schema or a collection is not accepted. -/
structure Rejection where
  subject : Subject
  message : Text
  lines : List Text
  /-- The document could not be read as one. -/
  unreadable : Bool := false
  deriving DecidableEq, Repr, Inhabited

/-- A rejection whose lines are the message, unless they are given. -/
def Rejection.of (subject : Subject) (message : Text) (lines : Option (List Text)) : Rejection :=
  ⟨subject, message, lines.getD [message], false⟩

/-- How checking a schema or a collection can fail. -/
inductive Failure where
  | rejected (r : Rejection)
  | faulted (f : Fault)
  deriving DecidableEq, Repr, Inhabited

end Conform
