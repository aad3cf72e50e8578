import LedgerClient.Toml.Number

/-!
# Reading TOML texts

Values nest through arrays and tables in braces. Outside of values a text is read line by line: a
header says to which table the following lines belong, and every other line adds a value to it.
`parse?` gives the members of the whole text, or nothing if it breaks the grammar or says two things
about one key.
-/

namespace LedgerClient.Toml

namespace Reader

mutual

/-- A value at a nesting depth. -/
def value : (fuel depth : Nat) → Reader Node
  | 0, _ => failure
  | fuel + 1, depth => do
    match ← peek with
    | some '"' => return .string (← quoted)
    | some '\x27' => return .string (← quoted)
    | some '[' => do
      guard (depth + 1 < maxNesting)
      expect '['
      items fuel (depth + 1) []
    | some '\x7b' => do
      guard (depth + 1 < maxNesting)
      expect '\x7b'
      blanks
      if ← accept ['\x7d'] then return .table .closed []
      else members fuel (depth + 1) []
    | some 't' => do
      guard (← accept "true".toList)
      return .boolean true
    | some 'f' => do
      guard (← accept "false".toList)
      return .boolean false
    | _ => number

/-- The rest of an array behind its bracket or a comma; the items before stand last first. -/
def items : (fuel depth : Nat) → List Node → Reader Node
  | 0, _, _ => failure
  | fuel + 1, depth, acc => do
    skipLines false
    if ← accept [']'] then return .array acc.reverse
    else do
      let item ← value fuel depth
      skipLines false
      if ← accept [','] then items fuel depth (item :: acc)
      else do
        expect ']'
        return .array (item :: acc).reverse

/-- The rest of a table in braces behind its brace or a comma. -/
def members : (fuel depth : Nat) → Members → Reader Node
  | 0, _, _ => failure
  | fuel + 1, depth, ms => do
    let (path, last) ← key
    expect '='
    blanks
    let v ← value fuel depth
    blanks
    match Members.put path last v .closed ms with
    | none => failure
    | some new =>
      if ← accept [','] then members fuel depth new
      else do
        expect '\x7d'
        return .table .closed new

end

/-- What a line says. -/
inductive Line where
  | blank
  | pair (path : List String) (key : String) (value : Node)
  | header (path : List String) (key : String)
  | nextHeader (path : List String) (key : String)

/-- One line, its end included. -/
def line (fuel : Nat) : Reader Line := do
  blanks
  match ← peek with
  | none => return .blank
  | some '#' => do
    lineEnd
    return .blank
  | some '\n' => do
    lineEnd
    return .blank
  | some '\r' => do
    lineEnd
    return .blank
  | some '[' => do
    if ← accept ['[', '['] then
      let (path, last) ← key
      guard (← accept [']', ']'])
      lineEnd
      return .nextHeader path last
    else
      expect '['
      let (path, last) ← key
      expect ']'
      lineEnd
      return .header path last
  | some _ => do
    let (path, last) ← key
    expect '='
    blanks
    let v ← value fuel 0
    lineEnd
    return .pair path last v

end Reader

/-- The members read so far and the path of the table to which lines add. -/
structure Document where
  members : Members
  current : List String

namespace Document

/-- The document with what a line says. -/
def add (d : Document) : Reader.Line → Option Document
  | .blank => some d
  | .pair path key value => do
    return { d with
      members := ← Members.alter false (Members.put path key value) d.current .header d.members }
  | .header path key => do
    return ⟨← Members.alter false (Members.openTable key) path .header d.members,
      path ++ [key]⟩
  | .nextHeader path key => do
    return ⟨← Members.alter false (Members.openNext key) path .header d.members,
      path ++ [key]⟩

/-- The document with the lines of a text; every line takes at least one character of it. -/
def addLines (valueFuel : Nat) : (fuel : Nat) → Document → List Char → Option Document
  | _, d, [] => some d
  | 0, _, _ :: _ => none
  | fuel + 1, d, c :: cs =>
    match Reader.line valueFuel (c :: cs) with
    | none => none
    | some (l, rest) =>
      match d.add l with
      | none => none
      | some d => addLines valueFuel fuel d rest

end Document

/-- A text without the mark of its byte order. -/
def stripMark (cs : List Char) : List Char :=
  match cs with
  | '\uFEFF' :: rest => rest
  | cs => cs

/-- The members of a text. -/
def parse? (s : String) : Option Members :=
  let cs := stripMark s.toList
  (Document.addLines (2 * cs.length + 2) (cs.length + 1) ⟨[], []⟩ cs).map (·.members)

end LedgerClient.Toml
