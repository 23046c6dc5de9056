import Conform.Text.Blank

/-!
# Settings files

A settings file holds one binding to a line: a name, an equals sign and a value, perhaps behind the
word `export`, perhaps with the value in quotes, perhaps with a comment. A line that is none is
skipped, and so is a byte-order mark in front of the first. Values can name other variables, which
are looked up in the bindings before them and then in the environment.
-/

namespace Conform.Settings

/-! ## 1. Pieces of a line -/

/-- A blank that does not end a line. -/
def isInlineBlank (c : Char) : Bool :=
  isBlank c && c != '\n' && c != '\r'

/-- Does the character end a line? -/
def isLineEnd (c : Char) : Bool :=
  c = '\n' || c = '\r'

/-- What is behind the blanks in front. -/
def skipBlanks (cs : List Char) : List Char :=
  cs.dropWhile isInlineBlank

/-- What is behind the word `export` and blanks, which may be absent. -/
def skipExport (cs : List Char) : List Char :=
  let word := "export".toList
  if word.isPrefixOf cs then
    match cs.drop word.length with
    | c :: rest => if isInlineBlank c then skipBlanks rest else cs
    | [] => cs
  else cs

/-- What is behind the line. -/
def skipLine (cs : List Char) : List Char :=
  match cs.dropWhile fun c => !isLineEnd c with
  | [] => []
  | _ :: rest => rest

/-- What is behind a comment and the end of the line, if nothing else is on it. -/
def lineEnd? (cs : List Char) : Option (List Char) :=
  let rest :=
    match skipBlanks cs with
    | '#' :: more => more.dropWhile fun c => !isLineEnd c
    | _ => cs
  match skipBlanks rest with
  | [] => some []
  | c :: more => if isLineEnd c then some more else none

/-! ## 2. Names and values -/

/-- The name in front, and what is behind it. A comment has none. -/
def name? (cs : List Char) : Option (Option (List Char) × List Char) :=
  match cs with
  | '#' :: _ => some (none, cs)
  | '\'' :: rest =>
    let key := rest.takeWhile (· != '\'')
    match rest.dropWhile (· != '\'') with
    | _ :: more => if key.isEmpty then none else some (some key, more)
    | [] => none
  | _ =>
    let inName (c : Char) : Bool := c != '=' && c != '#' && !isBlank c
    let key := cs.takeWhile inName
    if key.isEmpty then none else some (some key, cs.dropWhile inName)

/-- The text up to the closing quote, and what is behind it. A backslash takes the character behind
    it along, so that this one does not close. `reversed` is the text so far, newest first. -/
def quotedFrom (quote : Char) (reversed : List Char) : List Char → Option (List Char × List Char)
  | [] => none
  | '\\' :: c :: cs => quotedFrom quote (c :: '\\' :: reversed) cs
  | c :: cs =>
    if c = quote then some (reversed.reverse, cs)
    else if c = '\\' then none
    else quotedFrom quote (c :: reversed) cs

/-- What an escape in double quotes stands for. -/
def doubleEscape? : Char → Option Char
  | '\\' => some '\\'
  | '\'' => some '\''
  | '"' => some '"'
  | 'a' => some '\x07'
  | 'b' => some '\x08'
  | 'f' => some '\x0c'
  | 'n' => some '\n'
  | 'r' => some '\r'
  | 't' => some '\t'
  | 'v' => some '\x0b'
  | _ => none

/-- What an escape in single quotes stands for. -/
def singleEscape? : Char → Option Char
  | '\\' => some '\\'
  | '\'' => some '\''
  | _ => none

/-- A text with its escapes resolved; other backslashes stay. -/
def resolveEscapes (escape? : Char → Option Char) : List Char → List Char
  | '\\' :: e :: cs =>
    match escape? e with
    | some c => c :: resolveEscapes escape? cs
    | none => '\\' :: resolveEscapes escape? (e :: cs)
  | c :: cs => c :: resolveEscapes escape? cs
  | [] => []

/-- A value without a comment: from a hash sign behind a blank on, nothing counts. `blank` says
    whether a blank is in front of the value. -/
def cutComment (blank : Bool) : List Char → List Char
  | [] => []
  | c :: cs => if c = '#' && blank then [] else c :: cutComment (isBlank c) cs

/-- The value behind an equals sign and perhaps blanks, and what is behind it. -/
def value? (cs : List Char) : Option (List Char × List Char) :=
  match skipBlanks cs with
  | '\'' :: rest =>
    (quotedFrom '\'' [] rest).map fun r => (resolveEscapes singleEscape? r.1, r.2)
  | '"' :: rest =>
    (quotedFrom '"' [] rest).map fun r => (resolveEscapes doubleEscape? r.1, r.2)
  | _ =>
    let line := cs.takeWhile fun c => !isLineEnd c
    some (trimChars isBlank (cutComment false line), cs.dropWhile fun c => !isLineEnd c)

/-! ## 3. Bindings -/

/-- A name with its value; a name without an equals sign has none. -/
abbrev Binding := List Char × Option (List Char)

/-- The binding in front, if the line is one, and what is behind it. -/
def binding (cs : List Char) : Option Binding × List Char :=
  match name? (skipExport cs) with
  | none => (none, skipLine (skipExport cs))
  | some (key, rest) =>
    let rest := skipBlanks rest
    match rest with
    | '=' :: more =>
      match value? more with
      | none => (none, skipLine more)
      | some (value, rest) =>
        match lineEnd? rest with
        | some rest => (key.map fun k => (k, some value), rest)
        | none => (none, skipLine rest)
    | _ =>
      match lineEnd? rest with
      | some more => (key.map fun k => (k, none), more)
      | none => (none, skipLine rest)

/-- The bindings of a file. Every one takes a character, so their number is bounded by the
    characters. -/
def bindingsFrom : Nat → List Char → List Binding
  | 0, _ => []
  | n + 1, cs =>
    match cs.dropWhile isBlank with
    | [] => []
    | rest =>
      let (b, more) := binding rest
      b.toList ++ bindingsFrom n more

/-! ## 4. Variables -/

/-- The value of a name among some variables. The later one counts. -/
def lookup (known : List Binding) (name : List Char) : Option (Option (List Char)) :=
  (known.reverse.find? fun b => b.1 = name).map (·.2)

/-- The inside of a variable in front, behind its opening brace: the name and the default, and what
    is behind the closing brace. -/
def reference? (cs : List Char) : Option (List Char × List Char × List Char) :=
  let inName (c : Char) : Bool := c != '\x7d' && c != ':'
  let name := cs.takeWhile inName
  match cs.dropWhile inName with
  | '\x7d' :: rest => some (name, [], rest)
  | ':' :: '-' :: more =>
    match more.dropWhile (· != '\x7d') with
    | _ :: rest => some (name, more.takeWhile (· != '\x7d'), rest)
    | [] => none
  | _ => none

/-- A value with its variables replaced. Those that are not there are replaced by their default. The
    number bounds the variables. -/
def interpolate (known : List Binding) : Nat → List Char → List Char
  | 0, cs => cs
  | n + 1, cs =>
    let plain := cs.takeWhile (· != '$')
    match cs.dropWhile (· != '$') with
    | '$' :: '\x7b' :: more =>
      match reference? more with
      | some (name, default, rest) =>
        let value := ((lookup known name).getD (some default)).getD []
        plain ++ value ++ interpolate known n rest
      | none => plain ++ '$' :: interpolate known n ('\x7b' :: more)
    | '$' :: more => plain ++ '$' :: interpolate known n more
    | _ => plain

/-- Sets a name among some bindings: a name that is there already keeps its place. -/
def bind (b : Binding) : List Binding → List Binding
  | [] => [b]
  | c :: cs => if c.1 = b.1 then b :: cs else c :: bind b cs

/-- The bindings of a file with their variables replaced, one after the other. -/
def resolveAll (environment resolved : List Binding) : List Binding → List Binding
  | [] => resolved
  | (name, value) :: bs =>
    let value := value.map fun v => interpolate (environment ++ resolved) (v.length + 1) v
    resolveAll environment (bind (name, value) resolved) bs

/-- A settings file without the byte-order mark in front. -/
def withoutMark : List Char → List Char
  | '\uFEFF' :: cs => cs
  | cs => cs

/-- The variables that a settings file binds. -/
def fileBindings (environment : List Binding) (file : List Char) : List Binding :=
  let file := withoutMark file
  resolveAll environment [] (bindingsFrom (file.length + 1) file)

end Conform.Settings
