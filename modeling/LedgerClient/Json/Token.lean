import LedgerClient.Json.Numeral

/-!
# Words of JSON texts

A text is first cut into marks, quoted strings and words. What a string or a word stands for is
found out afterwards: `unquote` resolves the escapes of a string, and a word is one of three names
or a number. A string may be well formed and still spell no text, when an escape gives one half of a
pair.
-/

namespace LedgerClient.Json

/-- A piece of a text. -/
inductive Token where
  /-- One of the marks `[`, `]`, `{`, `}`, `:` and `,`. -/
  | mark (c : Char)
  /-- What stands between two quotes. -/
  | quoted (raw : List Char)
  /-- What stands between marks, quotes and white space. -/
  | word (cs : List Char)
  deriving DecidableEq, Repr

namespace Token

/-- Whether a character is white space. -/
def isSpace (c : Char) : Bool := c == ' ' || c == '\n' || c == '\r' || c == '\t'

/-- Whether a character is a mark. -/
def isMark (c : Char) : Bool :=
  c == '[' || c == ']' || c == '\x7b' || c == '\x7d' || c == ':' || c == ','

/-- The piece that is being read; its characters stand last first. -/
inductive Open where
  | nothing
  | word (cs : List Char)
  | quoted (cs : List Char)
  /-- A string behind a backslash. -/
  | escaped (cs : List Char)

/-- The pieces read so far, last first, and the one that is being read. -/
structure Scan where
  done : List Token
  current : Open

/-- One more character outside strings; `done` are the pieces before it. -/
def startWith (done : List Token) (c : Char) : Scan :=
  if c = '"' then ⟨done, .quoted []⟩
  else if isSpace c then ⟨done, .nothing⟩
  else if isMark c then ⟨.mark c :: done, .nothing⟩
  else ⟨done, .word [c]⟩

/-- One more character. -/
def step (s : Scan) (c : Char) : Scan :=
  match s.current with
  | .nothing => startWith s.done c
  | .word cs =>
    if c = '"' ∨ isSpace c ∨ isMark c then startWith (.word cs.reverse :: s.done) c
    else ⟨s.done, .word (c :: cs)⟩
  | .quoted cs =>
    if c = '"' then ⟨.quoted cs.reverse :: s.done, .nothing⟩
    else if c = '\\' then ⟨s.done, .escaped (c :: cs)⟩
    else ⟨s.done, .quoted (c :: cs)⟩
  | .escaped cs => ⟨s.done, .quoted (c :: cs)⟩

/-- The pieces of a text, unless a string in it has no end. -/
def scan (s : String) : Option (List Token) :=
  let last := s.foldl step ⟨[], .nothing⟩
  match last.current with
  | .nothing => some last.done.reverse
  | .word cs => some (Token.word cs.reverse :: last.done).reverse
  | .quoted _ => none
  | .escaped _ => none

/-! ## Strings -/

/-- The value of a hexadecimal digit of either case. -/
def hexValue? (c : Char) : Option Nat :=
  if '0' ≤ c ∧ c ≤ '9' then some (c.toNat - 48)
  else if 'a' ≤ c ∧ c ≤ 'f' then some (c.toNat - 87)
  else if 'A' ≤ c ∧ c ≤ 'F' then some (c.toNat - 55)
  else none

/-- The number that four hexadecimal digits spell. -/
def hexWord? (a b c d : Char) : Option Nat := do
  return 4096 * (← hexValue? a) + 256 * (← hexValue? b) + 16 * (← hexValue? c) + (← hexValue? d)

/-- The character that a letter behind a backslash stands for. -/
def escapeLetter? (c : Char) : Option Char :=
  if c = '"' ∨ c = '\\' ∨ c = '/' then some c
  else if c = 'b' then some '\x08'
  else if c = 'f' then some '\x0c'
  else if c = 'n' then some '\n'
  else if c = 'r' then some '\r'
  else if c = 't' then some '\t'
  else none

/-- What the characters of a string spell: units of 16 bits for escapes that give one, characters
for all else. -/
inductive Unit16 where
  | char (c : Char)
  | unit (n : Nat)
  deriving DecidableEq

/-- The characters and units that the inside of a string spells, unless it breaks the grammar; those
already found stand in `acc`, last first. -/
def units? (acc : List Unit16) : List Char → Option (List Unit16)
  | [] => some acc.reverse
  | '\\' :: 'u' :: a :: b :: c :: d :: cs =>
    match hexWord? a b c d with
    | some n => units? (.unit n :: acc) cs
    | none => none
  | '\\' :: c :: cs =>
    match escapeLetter? c with
    | some letter => units? (.char letter :: acc) cs
    | none => none
  | c :: cs => if c.toNat < 32 ∨ c = '\\' then none else units? (.char c :: acc) cs

/-- Whether a unit is the first half of a pair. -/
def isHigh (n : Nat) : Bool := 0xD800 ≤ n && n < 0xDC00

/-- Whether a unit is the second half of a pair. -/
def isLow (n : Nat) : Bool := 0xDC00 ≤ n && n < 0xE000

/-- The characters of units with their pairs joined, unless one half stands alone. -/
def join? (acc : List Char) : List Unit16 → Option (List Char)
  | [] => some acc.reverse
  | .char c :: us => join? (c :: acc) us
  | .unit n :: us =>
    if isHigh n then
      match us with
      | .unit m :: rest =>
        if isLow m then join? (Char.ofNat (0x10000 + 1024 * (n - 0xD800) + (m - 0xDC00)) :: acc) rest
        else none
      | _ => none
    else if isLow n then none
    else join? (Char.ofNat n :: acc) us

/-- A string that follows the grammar: the text that it spells, if it spells one. -/
def unquote? (raw : List Char) : Option (Option String) :=
  (units? [] raw).map fun us => (join? [] us).map String.ofList

/-- The value of a word. -/
def wordValue? (cs : List Char) : Option Json :=
  if cs = "null".toList then some .null
  else if cs = "true".toList then some (.bool true)
  else if cs = "false".toList then some (.bool false)
  else (Numeral.ofChars? cs).map Numeral.toJson

end Token

end LedgerClient.Json
