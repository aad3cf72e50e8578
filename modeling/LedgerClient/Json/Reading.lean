import LedgerClient.Json.Token

/-!
# Reading JSON texts

The pieces of a text are read one by one with the containers that are still open on a stack, so that
no text, however deep its containers, needs more than its own length of steps. A container at depth
128 or deeper, or an object with a name that spells no text, is unreadable.
-/

namespace LedgerClient.Json

/-- The depth from which on containers are unreadable. -/
def maxDepth : Nat := 128

/-- A container that is still open, with its parts read so far, last first. The name of a member
that spells no text is absent. -/
inductive Frame where
  | array (items : List Json)
  | object (members : List (Option String × Json))
  /-- An object after the name of its next member. -/
  | member (members : List (Option String × Json)) (name : Option String)

/-- What may come next. -/
inductive Expectation where
  /-- A value. -/
  | value
  /-- The first item of an array, or its end. -/
  | firstItem
  /-- The first name in an object, or its end. -/
  | firstName
  /-- A name in an object. -/
  | name
  /-- The colon between a name and a value. -/
  | colon
  /-- A comma, or the end of the innermost container. -/
  | next
  /-- Nothing. -/
  | nothing (result : Json)

/-- The open containers, innermost first, and what may come next. -/
structure State where
  open_ : List Frame
  expect : Expectation

namespace State

/-- The beginning of a text. -/
def start : State := ⟨[], .value⟩

/-- The state after a value. -/
def afterValue (v : Json) : List Frame → Option State
  | [] => some ⟨[], .nothing v⟩
  | .array items :: rest => some ⟨.array (v :: items) :: rest, .next⟩
  | .member members name :: rest => some ⟨.object ((name, v) :: members) :: rest, .next⟩
  | .object _ :: _ => none

/-- A container at a depth, unless it is too deep. -/
def atDepth (depth : Nat) (v : Json) : Json := if maxDepth ≤ depth then .unreadable else v

/-- The members of an object in order, unless a name spells no text. -/
def named? (acc : List (String × Json)) : List (Option String × Json) → Option (List (String × Json))
  | [] => some acc
  | (some name, v) :: rest => named? ((name, v) :: acc) rest
  | (none, _) :: _ => none

/-- The object with the given members, last first. -/
def objectOf (members : List (Option String × Json)) : Json :=
  match named? [] members with
  | some ms => .object ms
  | none => .unreadable

/-- The state after the end of the innermost container. -/
def close (c : Char) : List Frame → Option State
  | .array items :: rest =>
    if c = ']' then afterValue (atDepth (rest.length + 1) (.array items.reverse)) rest else none
  | .object members :: rest =>
    if c = '\x7d' then afterValue (atDepth (rest.length + 1) (objectOf members)) rest else none
  | _ => none

/-- The state after a piece where a value is due. -/
def readValue (frames : List Frame) : Token → Option State
  | .mark c =>
    if c = '[' then some ⟨.array [] :: frames, .firstItem⟩
    else if c = '\x7b' then some ⟨.object [] :: frames, .firstName⟩
    else none
  | .quoted raw =>
    match Token.unquote? raw with
    | none => none
    | some none => afterValue .unreadable frames
    | some (some s) => afterValue (.string s) frames
  | .word cs =>
    match Token.wordValue? cs with
    | none => none
    | some v => afterValue v frames

/-- The state after a piece where a name is due. -/
def readName (frames : List Frame) : Token → Option State
  | .quoted raw =>
    match frames, Token.unquote? raw with
    | .object members :: rest, some name => some ⟨.member members name :: rest, .colon⟩
    | _, _ => none
  | _ => none

/-- The state after a comma. -/
def afterComma : List Frame → Option State
  | .array items :: rest => some ⟨.array items :: rest, .value⟩
  | .object members :: rest => some ⟨.object members :: rest, .name⟩
  | _ => none

/-- The state after one more piece, unless it breaks the grammar. -/
def step (s : State) (t : Token) : Option State :=
  match s.expect with
  | .value => readValue s.open_ t
  | .firstItem => if t = .mark ']' then close ']' s.open_ else readValue s.open_ t
  | .firstName => if t = .mark '\x7d' then close '\x7d' s.open_ else readName s.open_ t
  | .name => readName s.open_ t
  | .colon => if t = .mark ':' then some ⟨s.open_, .value⟩ else none
  | .next =>
    match t with
    | .mark c => if c = ',' then afterComma s.open_ else close c s.open_
    | _ => none
  | .nothing _ => none

/-- The state after all pieces, unless one breaks the grammar. -/
def run (s : State) : List Token → Option State
  | [] => some s
  | t :: ts =>
    match step s t with
    | none => none
    | some next => run next ts

end State

/-- The value of a text, if it follows the grammar. -/
def parse? (s : String) : Option Json :=
  match Token.scan s with
  | none => none
  | some ts =>
    match State.run .start ts with
    | some ⟨_, .nothing result⟩ => some result
    | _ => none

end LedgerClient.Json
