import Conform.Markup.Load
import Conform.Rejection
import Conform.Schema.Check

/-!
# Compiling a schema

From the text of a schema to the schema: the text is loaded, the document is checked, and what the
check lets pass is read off. A text that is no document, or an empty one, is rejected as
unreadable; a document that is no schema is rejected with the report of the check.
-/

namespace Conform.Schema

/-! ## 1. Reading off -/

/-- The text that a field holds. -/
def textField? (g : Graph) (record : List (Atom × Ref)) (name : Text) : Option Text :=
  match (field? record name).bind g.atom? with
  | some (.str t) => some t
  | _ => none

/-- The property with some criteria. -/
def propertyOf? (g : Graph) (criteria : Ref) : Option Property := do
  let record ← g.record? criteria
  let type ← PropertyType.resolve? (← textField? g record "type")
  some ⟨type, textField? g record "description", textField? g record "key_into"⟩

/-- The properties of some declarations, under their names as the schema keeps them. -/
def propertiesOf? (g : Graph) : List (Atom × Ref) → Option (List (Atom × Property))
  | [] => some []
  | p :: ps => do
    let property ← propertyOf? g p.2
    return (p.1.keep, property) :: (← propertiesOf? g ps)

/-- The schema of a document that has been checked. -/
def ofDocument? (g : Graph) (r : Ref) : Option Schema := do
  let record ← g.record? r
  let description ← textField? g record "description"
  let usedBy ←
    match g.object (← field? record "used_by") with
    | .list items => some items
    | _ => none
  let declarations ← g.record? (← field? record "properties")
  let properties ← propertiesOf? g declarations
  some ⟨description, usedBy.map g.outline, textField? g record "primary_key", properties⟩

/-! ## 2. Compiling -/

/-- The rejection of a text that could not be read. `unreadable` says whether it is no document;
    else it is an empty one. -/
def unparsed (unreadable : Bool) : Rejection :=
  { Rejection.of .schema "Schema failed to parse" none with unreadable }

/-- The rejection of a document that is no schema. -/
def malformed (r : Report) : Rejection :=
  Rejection.of .schema ({ r with introduction := "Invalid schema:" } : Report).render (some r.lines)

/-- The schema of a text. -/
def compile (text : List Char) : Except Failure Schema :=
  match Markup.load text with
  | .error .malformed => .error (.rejected (unparsed true))
  | .error f => .error (.faulted f)
  | .ok none => .error (.rejected (unparsed false))
  | .ok (some d) =>
    if d.graph.kind d.root = .null then .error (.rejected (unparsed false))
    else
      match check d.graph d.root with
      | .error f => .error (.faulted f)
      | .ok r =>
        if r.hasLines then .error (.rejected (malformed r))
        else
          match ofDocument? d.graph d.root with
          | some s => .ok s
          -- A document without a report always has a schema.
          | none => .error (.faulted .malformed)

end Conform.Schema
