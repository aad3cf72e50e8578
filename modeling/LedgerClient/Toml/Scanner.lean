/-!
# The characters of TOML texts

A reader takes characters from the front of a text. This module has the smallest readers: single
characters, blanks, comments and the ends of lines, the four kinds of quoted text, and keys.
-/

namespace LedgerClient.Toml

/-- A reader of values from the front of a text. -/
abbrev Reader (α : Type) := StateT (List Char) Option α

namespace Reader

/-- The next character, left in place. -/
def peek : Reader (Option Char) := fun cs => some (cs.head?, cs)

/-- The given character. -/
def expect (c : Char) : Reader Unit
  | d :: cs => if d = c then some ((), cs) else none
  | [] => none

/-- The given characters, if they come next. -/
def accept (word : List Char) : Reader Bool := fun cs =>
  if word.isPrefixOf cs then some (true, cs.drop word.length) else some (false, cs)

/-- The longest run of characters with a property. -/
def takeWhile (p : Char → Bool) : Reader (List Char) := fun cs => some (cs.span p)

/-- Whether a character is a blank. -/
def isBlank (c : Char) : Bool := c == ' ' || c == '\t'

/-- Blanks, if there are any. -/
def blanks : Reader Unit := fun cs => some ((), cs.dropWhile isBlank)

/-- Whether a character may stand in comments and in texts between apostrophes. -/
def isPlain (c : Char) : Bool := c == '\t' || (32 ≤ c.toNat && c.toNat != 127)

/-- The end of a line or of the text. -/
def newlineOrEnd : Reader Unit
  | [] => some ((), [])
  | '\n' :: cs => some ((), cs)
  | '\r' :: '\n' :: cs => some ((), cs)
  | _ => none

/-- A comment, if there is one, and the end of the line. -/
def lineEnd : Reader Unit := do
  blanks
  if ← accept ['#'] then
    let _ ← takeWhile isPlain
  newlineOrEnd

/-- Blanks, comments and line ends between the items of an array. -/
def skipLines (inComment : Bool) : Reader Unit
  | [] => if inComment then none else some ((), [])
  | '\r' :: '\n' :: cs => skipLines false cs
  | c :: cs =>
    if c = '\n' then skipLines false cs
    else if inComment then if isPlain c then skipLines true cs else none
    else if isBlank c then skipLines false cs
    else if c = '#' then skipLines true cs
    else some ((), c :: cs)

/-! ## Quoted texts -/

/-- The character with a code point, if there is one. -/
def charOfCode? (n : Nat) : Option Char :=
  if n.isValidChar then some (Char.ofNat n) else none

/-- The value of a hexadecimal digit of either case. -/
def hexValue? (c : Char) : Option Nat :=
  if '0' ≤ c ∧ c ≤ '9' then some (c.toNat - 48)
  else if 'a' ≤ c ∧ c ≤ 'f' then some (c.toNat - 87)
  else if 'A' ≤ c ∧ c ≤ 'F' then some (c.toNat - 55)
  else none

/-- The character whose code point hexadecimal digits spell. -/
def charOfHex? (digits : List Char) : Option Char :=
  (digits.foldlM (fun n c => (hexValue? c).map (16 * n + ·)) 0).bind charOfCode?

/-- The character that a letter behind a backslash stands for. -/
def escapeLetter? (c : Char) : Option Char :=
  if c = '"' ∨ c = '\\' then some c
  else if c = 'b' then some '\x08'
  else if c = 't' then some '\t'
  else if c = 'n' then some '\n'
  else if c = 'f' then some '\x0c'
  else if c = 'r' then some '\r'
  else none

/-- A text between quotes on one line, behind the opening quote. -/
def basic (acc : List Char) : Reader String
  | [] => none
  | '\\' :: 'u' :: a :: b :: c :: d :: cs =>
    match charOfHex? [a, b, c, d] with
    | some x => basic (x :: acc) cs
    | none => none
  | '\\' :: 'U' :: a :: b :: c :: d :: e :: f :: g :: h :: cs =>
    match charOfHex? [a, b, c, d, e, f, g, h] with
    | some x => basic (x :: acc) cs
    | none => none
  | '\\' :: c :: cs =>
    match escapeLetter? c with
    | some x => basic (x :: acc) cs
    | none => none
  | c :: cs =>
    if c = '"' then some (String.ofList acc.reverse, cs)
    else if c = '\\' ∨ ! isPlain c then none
    else basic (c :: acc) cs

/-- Where in a text over several lines a reader stands. -/
inductive Place where
  /-- In the text itself. -/
  | text
  /-- Between a backslash and the end of its line. -/
  | lineRest
  /-- Behind such an end, where blanks and line ends do not count. -/
  | gap
  deriving DecidableEq

/-- A text between threefold quotes, behind the opening ones. Up to two quotes may stand before the
closing ones. -/
def multiBasic (place : Place) (acc : List Char) : Reader String
  | [] => none
  | '\r' :: '\n' :: cs =>
    match place with
    | .text => multiBasic .text ('\n' :: acc) cs
    | _ => multiBasic .gap acc cs
  | '"' :: '"' :: '"' :: '"' :: '"' :: cs =>
    if place = .lineRest then none else some (String.ofList ('"' :: '"' :: acc).reverse, cs)
  | '"' :: '"' :: '"' :: '"' :: cs =>
    if place = .lineRest then none else some (String.ofList ('"' :: acc).reverse, cs)
  | '"' :: '"' :: '"' :: cs =>
    if place = .lineRest then none else some (String.ofList acc.reverse, cs)
  | '\\' :: 'u' :: a :: b :: c :: d :: cs =>
    if place = .lineRest then none
    else
      match charOfHex? [a, b, c, d] with
      | some x => multiBasic .text (x :: acc) cs
      | none => none
  | '\\' :: 'U' :: a :: b :: c :: d :: e :: f :: g :: h :: cs =>
    if place = .lineRest then none
    else
      match charOfHex? [a, b, c, d, e, f, g, h] with
      | some x => multiBasic .text (x :: acc) cs
      | none => none
  | '\\' :: c :: cs =>
    if place = .lineRest then none
    else if c = '\n' then multiBasic .gap acc cs
    else if isBlank c then multiBasic .lineRest acc cs
    else if c = '\r' then
      match cs with
      | '\n' :: rest => multiBasic .gap acc rest
      | _ => none
    else
      match escapeLetter? c with
      | some x => multiBasic .text (x :: acc) cs
      | none => none
  | c :: cs =>
    match place with
    | .text =>
      if c = '\n' then multiBasic .text (c :: acc) cs
      else if c = '\\' ∨ ! isPlain c then none
      else multiBasic .text (c :: acc) cs
    | .lineRest =>
      if c = '\n' then multiBasic .gap acc cs
      else if isBlank c then multiBasic .lineRest acc cs
      else none
    | .gap =>
      if c = '\n' ∨ isBlank c then multiBasic .gap acc cs
      else if c = '\\' ∨ ! isPlain c then none
      else multiBasic .text (c :: acc) cs

/-- A text between apostrophes on one line, behind the opening one. -/
def literal (acc : List Char) : Reader String
  | [] => none
  | c :: cs =>
    if c = '\x27' then some (String.ofList acc.reverse, cs)
    else if isPlain c then literal (c :: acc) cs
    else none

/-- A text between threefold apostrophes, behind the opening ones. -/
def multiLiteral (acc : List Char) : Reader String
  | [] => none
  | '\r' :: '\n' :: cs => multiLiteral ('\n' :: acc) cs
  | '\x27' :: '\x27' :: '\x27' :: '\x27' :: '\x27' :: cs =>
    some (String.ofList ('\x27' :: '\x27' :: acc).reverse, cs)
  | '\x27' :: '\x27' :: '\x27' :: '\x27' :: cs =>
    some (String.ofList ('\x27' :: acc).reverse, cs)
  | '\x27' :: '\x27' :: '\x27' :: cs => some (String.ofList acc.reverse, cs)
  | c :: cs => if c = '\n' ∨ isPlain c then multiLiteral (c :: acc) cs else none

/-- A line end at the beginning of a text over several lines, which does not count. -/
def skipFirstNewline : Reader Unit
  | '\n' :: cs => some ((), cs)
  | '\r' :: '\n' :: cs => some ((), cs)
  | cs => some ((), cs)

/-- A quoted text of any kind. -/
def quoted : Reader String := do
  if ← accept ['"', '"', '"'] then
    skipFirstNewline
    multiBasic .text []
  else if ← accept ['"'] then basic []
  else if ← accept ['\x27', '\x27', '\x27'] then
    skipFirstNewline
    multiLiteral []
  else
    expect '\x27'
    literal []

/-! ## Keys -/

/-- Whether a character may stand in a key without quotes. -/
def isBare (c : Char) : Bool := c.isAlphanum || c == '-' || c == '_'

/-- One key, with the blanks around it. -/
def simpleKey : Reader String := do
  blanks
  let key ←
    if ← accept ['"'] then basic []
    else if ← accept ['\x27'] then literal []
    else do
      let cs ← takeWhile isBare
      guard (! cs.isEmpty)
      pure (String.ofList cs)
  blanks
  return key

/-- The largest nesting of values, which also bounds the number of parts of a key. -/
def maxNesting : Nat := 80

/-- The parts of a key between points, as many as there are and at most `fuel`. -/
def keyParts : (fuel : Nat) → Reader (List String)
  | 0 => failure
  | fuel + 1 => do
    let key ← simpleKey
    if ← accept ['.'] then return key :: (← keyParts fuel)
    else return [key]

/-- A key: the parts before the last one, and that. -/
def key : Reader (List String × String) := do
  let parts ← keyParts (maxNesting - 1)
  match parts.getLast? with
  | some last => return (parts.dropLast, last)
  | none => failure

end Reader

end LedgerClient.Toml
