import Conform.Schema.Compile
import Conform.Validation

/-!
# Sessions

A session holds one compiled schema and one copy of it that may be edited. The users and the
properties of a schema are kept in cells, which can be changed in place and be shared, so a copy is
one of its own only as far as its cells are. This file fixes how schemas are kept and copied, what
each step of a session answers, and what it leaves behind. A text that does not compile leaves the
schema before it in force.
-/

namespace Conform

/-! ## 1. Schemas in memory -/

/-- A schema as it is kept: its users and its properties are in cells, which it names by their
    numbers. What it holds itself cannot be changed. -/
structure StoredSchema where
  description : Text
  primaryKey : Option Text
  usedBy : Nat
  properties : Nat
  deriving Repr, Inhabited

/-- The cells in use, those for users and those for properties. -/
structure Memory where
  users : List (List Outline) := []
  tables : List (List (Atom × Property)) := []

namespace Memory

/-- The schema that is kept. A cell that is not in use is empty. -/
def load (m : Memory) (o : StoredSchema) : Schema where
  description := o.description
  usedBy := m.users.getD o.usedBy []
  primaryKey := o.primaryKey
  properties := m.tables.getD o.properties []

/-- Keeps a schema in new cells. -/
def store (m : Memory) (s : Schema) : StoredSchema × Memory :=
  (⟨s.description, s.primaryKey, m.users.length, m.tables.length⟩,
    ⟨m.users ++ [s.usedBy], m.tables ++ [s.properties]⟩)

/-- Copies a schema together with its cells. -/
def copy (m : Memory) (o : StoredSchema) : StoredSchema × Memory :=
  m.store (m.load o)

/-- Changes the users of a schema in their cell. -/
def editUsers (m : Memory) (o : StoredSchema) (f : List Outline → List Outline) : Memory :=
  { m with users := m.users.modify o.usedBy f }

/-- Changes the properties of a schema in their cell. -/
def editProperties (m : Memory) (o : StoredSchema)
    (f : List (Atom × Property) → List (Atom × Property)) : Memory :=
  { m with tables := m.tables.modify o.properties f }

end Memory

/-! ## 2. Steps and answers -/

/-- A step of a session. -/
inductive Step where
  | compile (text : List Char)
  | check (text : List Char)
  | validate (text : List Char)
  /-- Show the schema. -/
  | schema
  /-- Take a copy of the schema. -/
  | copy
  /-- Remove all properties of the copy. -/
  | copyClear
  /-- Remove a property of the copy. -/
  | copyDelete (key : Value)
  /-- Add a user to the copy. -/
  | copyAppend (user : Value)
  /-- Replace a field of the copy, which is not allowed. -/
  | copyAssign

/-- What a step answers. -/
inductive Answer where
  | noSchema
  /-- No copy has been taken. -/
  | noCopy
  /-- The value can be no key. -/
  | notAKey
  | schema (s : Schema)
  | copy (s : Schema)
  | frozen
  | checked (r : Schema.Result)
  | valid
  | failed (f : Failure)

/-- The memory, and the schema in force and the copy in it. -/
structure Session where
  memory : Memory := {}
  schema : Option StoredSchema := none
  copy : Option StoredSchema := none

namespace Session

/-! ## 3. The copy -/

/-- Is a key of the copy named by a value? -/
def names (v : Value) (key : Atom) : Bool :=
  match v with
  | .atom _ a => key.sameKey a
  | _ => false

/-- Changes the copy in memory, if one has been taken, and shows it. -/
def change (σ : Session) (f : Memory → StoredSchema → Memory) : Answer × Session :=
  match σ.copy with
  | none => (.noCopy, σ)
  | some c =>
    let m := f σ.memory c
    (.copy (m.load c), { σ with memory := m })

/-! ## 4. Steps -/

/-- Compiles a text. Its schema is kept in new cells, and a copy of it is shown. -/
def compile (σ : Session) (text : List Char) : Answer × Session :=
  match Schema.compile text with
  | .ok new =>
    let (o, m) := σ.memory.store new
    let (c, m) := m.copy o
    (.schema (m.load c), { σ with memory := m, schema := some o })
  | .error f => (.failed f, σ)

/-- A step when a schema is in force. -/
def under (σ : Session) (o : StoredSchema) : Step → Answer × Session
  | .compile text => σ.compile text
  | .check text =>
    match (σ.memory.load o).result text with
    | .ok r => (.checked r, σ)
    | .error f => (.failed (.faulted f), σ)
  | .validate text =>
    match (σ.memory.load o).validate text with
    | .ok () => (.valid, σ)
    | .error f => (.failed f, σ)
  | .schema =>
    let (c, m) := σ.memory.copy o
    (.schema (m.load c), { σ with memory := m })
  | .copy =>
    let (c, m) := σ.memory.copy o
    (.copy (m.load c), { σ with memory := m, copy := some c })
  | .copyClear => σ.change fun m c => m.editProperties c fun _ => []
  | .copyDelete key =>
    if σ.copy.isSome && !key.isKey then (.notAKey, σ)
    else σ.change fun m c => m.editProperties c fun ps => ps.filter fun p => !names key p.1
  | .copyAppend user => σ.change fun m c => m.editUsers c fun us => us ++ [user.outline]
  | .copyAssign => (if σ.copy.isSome then .frozen else .noCopy, σ)

/-- A step. Without a schema in force only compiling does anything. -/
def step (σ : Session) (t : Step) : Answer × Session :=
  match σ.schema with
  | some o => σ.under o t
  | none =>
    match t with
    | .compile text => σ.compile text
    | _ => (.noSchema, σ)

/-- The answers of some steps, one after the other. -/
def run (σ : Session) : List Step → List Answer
  | [] => []
  | t :: ts =>
    let (a, σ) := σ.step t
    a :: run σ ts

end Session

end Conform
