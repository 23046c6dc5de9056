import Conform.Fault
import Conform.Report
import Conform.Schema.Basic

/-!
# Checking a schema document

Which documents are schemas. A document is checked field by field: the fields of the schema itself
first, then its properties, each in a block of its own. The check reports every fault it finds; only
a document without properties is not looked at any further.
-/

namespace Conform.Schema

/-! ## 1. Fields -/

/-- What follows the name of something that has the wrong kind. -/
def kindMismatch (expected actual : Kind) : Text :=
  Text.ofString ("should be of type " ++ expected.name ++ ", but is of type " ++ actual.name)

/-- The fields of a schema that must be there. -/
def requiredFields : List (Text × Kind) := [("description", .string), ("used_by", .array)]

/-- The fields of a schema that may be there. -/
def optionalFields : List (Text × Kind) := [("primary_key", .string)]

/-- The fields of a property that must be there. -/
def requiredCriteria : List (Text × Kind) := [("type", .string)]

/-- The fields of a property that may be there. -/
def optionalCriteria : List (Text × Kind) := [("description", .string), ("key_into", .string)]

/-- The value of a named field. -/
def field? (record : List (Atom × Ref)) (name : Text) : Option Ref :=
  fieldOf? record (.str name)

/-- The lines about a field that is there. -/
def presentField (g : Graph) (name : Text) (expected : Kind) (value : Ref) : List Text :=
  if g.kind value = expected then []
  else [name ++ Text.ofString ": " ++ kindMismatch expected (g.kind value)]

/-- The lines about a field that must be there. -/
def requiredField (g : Graph) (record : List (Atom × Ref)) (f : Text × Kind) : List Text :=
  match field? record f.1 with
  | some value => presentField g f.1 f.2 value
  | none => [Text.ofString "missing " ++ f.1 ++ Text.ofString ":"]

/-- The lines about a field that may be there. -/
def optionalField (g : Graph) (record : List (Atom × Ref)) (f : Text × Kind) : List Text :=
  match field? record f.1 with
  | some value => presentField g f.1 f.2 value
  | none => []

/-- The lines about some fields. -/
def checkFields (g : Graph) (record : List (Atom × Ref)) (required optional : List (Text × Kind)) :
    List Text :=
  required.flatMap (requiredField g record) ++ optional.flatMap (optionalField g record)

/-! ## 2. Properties -/

/-- The names of the declared types, with commas between them. -/
def declaredNames : Text :=
  Text.join (Text.ofString ", ") (PropertyType.declared.map (·.1))

/-- The lines about a type that is declared by an unknown name. -/
def unknownType (g : Graph) (record : List (Atom × Ref)) : List Text :=
  match (field? record "type").bind g.atom? with
  | some (.str name) =>
    if (PropertyType.resolve? name).isNone then
      [Text.ofString "type: unknown type " ++ name ++ Text.ofString ", should be one of " ++
        declaredNames]
    else []
  | _ => []

/-- The lines about the criteria of a property. -/
def checkCriteria (g : Graph) (criteria : Ref) : List Text :=
  match g.record? criteria with
  | none => [kindMismatch .hash (g.kind criteria)]
  | some record => checkFields g record requiredCriteria optionalCriteria ++ unknownType g record

/-- The report about a property, in a block under its name if there is something to say. The name
    has to be shown for that. -/
def checkProperty (g : Graph) (p : Atom × Ref) : Except Fault Report :=
  match checkCriteria g p.2 with
  | [] => .ok {}
  | lines =>
    match p.1.shown? with
    | none => .error .noSuchValue
    | some name =>
      .ok (Report.nest {} (Text.ofString "malformed property " ++ name ++ Text.ofString ":")
        { lines })

/-- The reports about some properties, one behind the other. -/
def checkProperties (g : Graph) : List (Atom × Ref) → Except Fault (List Text)
  | [] => .ok []
  | p :: ps => do
    let r ← checkProperty g p
    return r.lines ++ (← checkProperties g ps)

/-! ## 3. The whole document -/

/-- The lines about a primary key that names no property. Null and false name none on purpose; a
    container never does. -/
def checkPrimaryKey (g : Graph) (record properties : List (Atom × Ref)) : List Text :=
  match field? record "primary_key" with
  | none => []
  | some r =>
    let names :=
      match g.object r with
      | .atom .null => true
      | .atom (.bool false) => true
      | .atom a => properties.any fun p => p.1.sameKey a
      | _ => false
    if names then [] else [Text.ofString "missing primary_key: property"]

/-- The line about a document that declares nothing. -/
def noProperties : Text := "no properties defined"

/-- The report about a schema document. -/
def check (g : Graph) (r : Ref) : Except Fault Report :=
  match g.record? r with
  | none => .ok { lines := [Text.ofString "schema: " ++ kindMismatch .hash (g.kind r)] }
  | some record =>
    let top := checkFields g record requiredFields optionalFields
    match field? record "properties" with
    | none => .ok { lines := top ++ [noProperties] }
    | some p =>
      if g.kind p = .null then .ok { lines := top ++ [noProperties] }
      else
        match g.record? p with
        | none =>
          .ok { lines := top ++ [Text.ofString "properties: " ++ kindMismatch .hash (g.kind p)] }
        | some properties => do
          let blocks ← checkProperties g properties
          .ok { lines := top ++ checkPrimaryKey g record properties ++ blocks }

end Conform.Schema
