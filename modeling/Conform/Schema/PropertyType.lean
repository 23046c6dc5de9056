import Conform.Atom

/-!
# Types of properties

A schema declares the types of its properties by name. There are four types and five names: one of
them is an older name of another. A type accepts the values of one kind and no others.
-/

namespace Conform

/-- The types that a property can have. -/
inductive PropertyType where
  | string
  | array
  | integer
  | boolean
  deriving DecidableEq, Repr, Inhabited

namespace PropertyType

/-- The types. -/
def all : List PropertyType := [.string, .array, .integer, .boolean]

/-- The name of a type. -/
def name : PropertyType → String
  | .string => "String"
  | .array => "Array"
  | .integer => "Integer"
  | .boolean => "Boolean"

/-- The kind of the values that a type accepts. -/
def kind : PropertyType → Kind
  | .string => .string
  | .array => .array
  | .integer => .integer
  | .boolean => .boolean

/-- Does a type accept the values of a kind? -/
def accepts (t : PropertyType) (k : Kind) : Bool :=
  t.kind = k

/-- The names under which types are declared. -/
def declared : List (Text × PropertyType) :=
  [("String", .string), ("Array", .array), ("Fixnum", .integer), ("Integer", .integer),
   ("Boolean", .boolean)]

/-- The type that is declared by a name. -/
def resolve? (name : Text) : Option PropertyType :=
  (declared.find? fun d => d.1 = name).map (·.2)

end PropertyType

end Conform
