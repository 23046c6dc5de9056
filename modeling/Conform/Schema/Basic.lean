import Conform.Graph
import Conform.Schema.PropertyType

/-!
# Schemas

What a schema says once it has been checked: a description, who uses the records, perhaps the
property that identifies a record, and the properties in the order of their declaration. A name of a
property is any key that a mapping can have.
-/

namespace Conform

/-- A declared property. -/
structure Property where
  type : PropertyType
  description : Option Text := none
  keyInto : Option Text := none
  deriving DecidableEq, Repr, Inhabited

/-- A schema. -/
structure Schema where
  description : Text
  usedBy : List Outline
  primaryKey : Option Text
  properties : List (Atom × Property)

namespace Schema

/-- Is a key the name of a declared property? -/
def declares (s : Schema) (key : Atom) : Bool :=
  s.properties.any fun p => p.1.sameKey key

end Schema

/-! ## Mappings as records -/

/-- The pairs of a mapping in a graph, with their keys as atoms. -/
def Graph.record? (g : Graph) (r : Ref) : Option (List (Atom × Ref)) :=
  match g.object r with
  | .map entries => some (entries.map fun e => ((g.atom? e.1).getD .null, e.2))
  | _ => none

/-- The value of a key in a record. -/
def fieldOf? {α : Type} (record : List (Atom × α)) (key : Atom) : Option α :=
  lookupPair (fun k => k.sameKey key) record

end Conform
