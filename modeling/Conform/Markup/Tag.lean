/-!
# Tags

The kinds a node of a document can be declared or recognised to have. A tag is written as a handle
and a suffix, or in full; all tags outside the repository of the format are alike, since no value
can be made of them.
-/

namespace Conform.Markup

/-- What a node is to be read as. -/
inductive Tag where
  | null
  | bool
  | int
  | float
  | binary
  | timestamp
  | str
  | seq
  | map
  | omap
  | pairs
  | set
  /-- The key `<<`, which merges mappings into the one it stands in. -/
  | merge
  /-- The key `=`, which holds the text of a mapping that is read as a scalar. -/
  | value
  /-- Any other tag. -/
  | other
  deriving DecidableEq, Repr, Inhabited

namespace Tag

/-- What the full form of a known tag starts with. -/
def repository : List Char := "tag:yaml.org,2002:".toList

/-- The name of a tag in the repository. -/
def name : Tag → List Char
  | .null => "null".toList
  | .bool => "bool".toList
  | .int => "int".toList
  | .float => "float".toList
  | .binary => "binary".toList
  | .timestamp => "timestamp".toList
  | .str => "str".toList
  | .seq => "seq".toList
  | .map => "map".toList
  | .omap => "omap".toList
  | .pairs => "pairs".toList
  | .set => "set".toList
  | .merge => "merge".toList
  | .value => "value".toList
  | .other => []

/-- The tags of the repository. -/
def known : List Tag :=
  [.null, .bool, .int, .float, .binary, .timestamp, .str, .seq, .map, .omap, .pairs, .set, .merge,
   .value]

/-- The tag with a full form. -/
def ofFull (full : List Char) : Tag :=
  (known.find? fun t => repository ++ t.name = full).getD .other

/-- The short form of a tag in a document. -/
def short (t : Tag) : List Char :=
  '!' :: '!' :: t.name

end Tag

end Conform.Markup
