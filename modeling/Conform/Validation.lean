import Conform.Markup.Load
import Conform.Markup.Print
import Conform.Rejection
import Conform.Schema.Basic

/-!
# Validating collections

A collection is a document that is a list of records. This file fixes what a schema finds wrong with
a single record, how the findings about a collection become a report, and the three ways to ask: the
examination, the validation that fails with a rejection, and the check that turns the rejection into
a result.
-/

namespace Conform

/-! ## 1. What validation sees -/

/-- An element of a collection as far as validation is concerned: a record with the kinds of its
    values, or something else. -/
inductive Element where
  | record (fields : List (Atom × Kind))
  | other (kind : Kind)
  deriving DecidableEq, Repr, Inhabited

/-- An object as an element. -/
def Graph.element (g : Graph) (r : Ref) : Element :=
  match g.record? r with
  | some record => .record (record.map fun p => (p.1, g.kind p.2))
  | none => .other (g.kind r)

namespace Schema

/-! ## 2. Violations of one element -/

/-- A way in which an element violates a schema. -/
inductive Violation where
  | notARecord (actual : Kind)
  | missingKey (name : Text)
  | wrongType (name : Atom) (expected : PropertyType) (actual : Kind)
  | unknownField (name : Atom)
  deriving DecidableEq, Repr, Inhabited

/-- The missing primary key of a record. -/
def missingKeys (s : Schema) (fields : List (Atom × Kind)) : List Violation :=
  match s.primaryKey with
  | none => []
  | some name => if (fieldOf? fields (.str name)).isSome then [] else [.missingKey name]

/-- The value of a declared property that has another type. -/
def wrongType (fields : List (Atom × Kind)) (p : Atom × Property) : List Violation :=
  match fieldOf? fields p.1 with
  | none => []
  | some k => if p.2.type.accepts k then [] else [.wrongType p.1 p.2.type k]

/-- A field that is not declared. -/
def unknownField (s : Schema) (f : Atom × Kind) : List Violation :=
  if s.declares f.1 then [] else [.unknownField f.1]

/-- The violations of an element: its missing primary key, then its values of another type in the
    order of the schema, then its undeclared fields in their own order. -/
def violations (s : Schema) : Element → List Violation
  | .other k => [.notARecord k]
  | .record fields =>
    s.missingKeys fields ++ s.properties.flatMap (wrongType fields) ++
      fields.flatMap s.unknownField

/-- The line of a violation. Names have to be shown for it. -/
def Violation.line? : Violation → Option Text
  | .notARecord k =>
    some (Text.ofString ("object: should be of type " ++ Kind.hash.name ++ ", but is of type " ++
      k.name))
  | .missingKey name =>
    some (Text.ofString "missing primary key field " ++ name ++ Text.ofString ":")
  | .wrongType name expected actual =>
    let what := if expected = .boolean then "boolean" else "of type " ++ expected.name
    name.shown?.map fun n =>
      n ++ Text.ofString (": should be " ++ what ++ ", but is of type " ++ actual.name)
  | .unknownField name =>
    name.shown?.map fun n => Text.ofString "unknown field " ++ n ++ Text.ofString ":"

/-- The lines about an element, one for each violation. There are none if a name cannot be shown. -/
def elementLines? (s : Schema) (g : Graph) (element : Ref) : Option (List Text) :=
  (s.violations (g.element element)).mapM Violation.line?

/-! ## 3. Examining a collection -/

/-- The heading of the block about an element. -/
def blockHeading (dump : List Char) : Text :=
  Text.ofString "Malformed object:\n" ++ Text.ofChars dump

/-- The report about an element: nothing, or a block under the element itself as a document. -/
def examineElement (s : Schema) (g : Graph) (r : Ref) : Except Fault Report :=
  match s.elementLines? g r with
  | none => .error .noSuchValue
  | some [] => .ok {}
  | some lines => do
    let dump ← g.dump r
    pure (Report.nest {} (blockHeading dump) { lines })

/-- The lines about some elements. -/
def examineElements (s : Schema) (g : Graph) : List Ref → Except Fault (List Text)
  | [] => .ok []
  | r :: rs => do
    let report ← s.examineElement g r
    return report.lines ++ (← s.examineElements g rs)

/-- What an examination finds: how many elements there are, and the report about them. -/
structure Findings where
  count : Nat
  report : Report
  deriving Repr, Inhabited

/-- The rejection of a text that could not be read as a collection. -/
def unparsedCollection (unreadable : Bool) : Rejection :=
  { Rejection.of .collection "Object collection failed to parse" none with unreadable }

/-- The rejection of a document that is no list. -/
def notACollection : Rejection :=
  Rejection.of .collection "Collection is not an Array of objects" none

/-- The rejection of a collection that violates a schema. -/
def violated (r : Report) : Rejection :=
  Rejection.of .collection r.render (some r.lines)

/-- Examines the collection of a text. -/
def examine (s : Schema) (text : List Char) : Except Failure Findings :=
  match Markup.load text with
  | .error .malformed => .error (.rejected (unparsedCollection true))
  | .error f => .error (.faulted f)
  | .ok none => .error (.rejected (unparsedCollection false))
  | .ok (some d) =>
    if d.graph.kind d.root = .null then .error (.rejected (unparsedCollection false))
    else
      match d.graph.object d.root with
      | .list items =>
        match s.examineElements d.graph items with
        | .error f => .error (.faulted f)
        | .ok lines => .ok ⟨items.length, { lines }⟩
      | _ => .error (.rejected notACollection)

/-! ## 4. Validating and checking -/

/-- What an examination means: it passes, or the collection is rejected. -/
def Findings.verdict (f : Findings) : Except Failure Unit :=
  if f.report.hasLines then .error (.rejected (violated f.report)) else .ok ()

/-- Validates the collection of a text. -/
def validate (s : Schema) (text : List Char) : Except Failure Unit := do
  (← s.examine text).verdict

/-- The result of a check. A valid collection has neither lines nor a message. -/
structure Result where
  valid : Bool
  lines : List Text := []
  message : Text := []
  deriving DecidableEq, Repr, Inhabited

/-- Checks the collection of a text: a rejection is a result, and only faults that are none of the
    document as such fail. -/
def result (s : Schema) (text : List Char) : Except Fault Result :=
  match s.validate text with
  | .ok () => .ok { valid := true }
  | .error (.rejected r) => .ok ⟨false, r.lines, r.message⟩
  | .error (.faulted f) => .error f

end Schema

end Conform
