/-!
# Line ends of files

Files end their lines in three ways: with a line feed, a return, or both. A file that is read as text
has line feeds only.
-/

namespace Conform

/-- A text with every return and line feed together, and then every return, as a line feed. -/
def plainLines : List Char → List Char
  | [] => []
  | '\r' :: '\n' :: cs => '\n' :: plainLines cs
  | c :: cs => (if c = '\r' then '\n' else c) :: plainLines cs

/-- The characters of bytes in UTF-8, if they are that. -/
def utf8? (bytes : List UInt8) : Option (List Char) :=
  (String.fromUTF8? ⟨bytes.toArray⟩).map String.toList

/-- The text of a file, if its bytes are UTF-8. -/
def fileText? (bytes : List UInt8) : Option (List Char) :=
  (utf8? bytes).map plainLines

end Conform
