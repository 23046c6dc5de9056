import Conform.Command.Path
import Conform.Text.Quoted

/-!
# Reading files

Why a file cannot be read, and how that is told. A run of the command sees files only through a
reader, a function from paths to bytes or a cause. The second part is a reader of its own: a folder
that is given as a list of its files and directories.
-/

namespace Conform.Command

/-! ## 1. Readers -/

/-- Why a file cannot be read. -/
inductive ReadFault where
  | absent
  /-- A part of the path goes through a file. -/
  | throughFile
  | directory
  | longName
  /-- Any other cause, with its number and its wording. -/
  | other (code : Nat) (reason : String)
  deriving DecidableEq, Repr, Inhabited

namespace ReadFault

/-- The number of a cause. -/
def number : ReadFault → Nat
  | .absent => 2
  | .throughFile => 20
  | .directory => 21
  | .longName => 36
  | .other code _ => code

/-- The wording of a cause. -/
def wording : ReadFault → String
  | .absent => "No such file or directory"
  | .throughFile => "Not a directory"
  | .directory => "Is a directory"
  | .longName => "File name too long"
  | .other _ reason => reason

/-- The causes for which nothing counts as being there that could be read: there is no file, or no
    way to one. -/
def missing : List Nat := [2, 9, 20, 21, 40]

/-- Does the cause mean that there is no file? -/
def isMissing (f : ReadFault) : Bool :=
  missing.contains f.number

/-- The message about a path that cannot be read. -/
def message (f : ReadFault) (p : Path) : List Char :=
  "[Errno ".toList ++ decimalDigits f.number ++ "] ".toList ++ f.wording.toList ++ ": ".toList ++
    Quoted.name p.shown

end ReadFault

/-- What can be read: the bytes at every path, or why there are none. -/
abbrev Reader := Path → Except ReadFault (List UInt8)

/-! ## 2. Folders -/

/-- Something in a folder. -/
inductive Entry where
  | file (bytes : List UInt8)
  | directory
  deriving DecidableEq, Repr, Inhabited

/-- A folder: what is in it, under the parts of the paths that lead there. -/
abbrev Folder := List (List (List Char) × Entry)

namespace Folder

/-- The two points that lead upwards. -/
def upward : List Char := ['.', '.']

/-- The greatest number of bytes in a part of a path. -/
def partLimit : Nat := 255

/-- The number of bytes from which a path is too long. -/
def pathLimit : Nat := 4096

/-- The number of bytes of a list of characters. -/
def byteCount (cs : List Char) : Nat :=
  cs.foldl (fun n c => n + c.utf8Size) 0

/-- What is at a place. A directory need not be listed if something in it is. -/
def entry? (f : Folder) (place : List (List Char)) : Option Entry :=
  if place.isEmpty then some .directory
  else
    match f.find? fun e => e.1 = place with
    | some e => some e.2
    | none => if f.any fun e => place.isPrefixOf e.1 then some .directory else none

/-- Is a part of a path too long to name anything? -/
def isLong (part : List Char) : Bool :=
  partLimit < byteCount part

/-- What is found outside the folder: only the directories above it. -/
def outside : List (List Char) → Except ReadFault (List UInt8)
  | [] => .error .directory
  | part :: rest =>
    if part = upward then outside rest
    else .error (if isLong part then .longName else .absent)

/-- What is found by walking on from a place in the folder. -/
def walk (f : Folder) (place : List (List Char)) : List (List Char) → Except ReadFault (List UInt8)
  | [] =>
    match f.entry? place with
    | some (.file bytes) => .ok bytes
    | some .directory => .error .directory
    | none => .error .absent
  | part :: rest =>
    match f.entry? place with
    | some (.file _) => .error .throughFile
    | none => .error .absent
    | some .directory =>
      if part = upward then
        if place.isEmpty then outside rest else f.walk place.dropLast rest
      else if isLong part then .error .longName
      else f.walk (place ++ [part]) rest

/-- Reads in a folder. -/
def read (f : Folder) : Reader := fun p =>
  if pathLimit ≤ byteCount p.shown then .error .longName
  else if p.slashes = 0 then f.walk [] p.parts
  else outside p.parts

end Folder

end Conform.Command
