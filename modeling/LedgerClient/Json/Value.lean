import LedgerClient.Number.Shortest

/-!
# JSON values

A value keeps the members of an object in their order, and all of them: what a repeated name means
is for the reader to say. A text may follow the grammar and still contain parts that have no value,
such as a number that is too large; these stand as `unreadable`, so that a reader which does not
look at a part is not disturbed by it.

`Json.settle?` is the reading of a value as a whole: every part has to be readable, and of members
with one name the last gives the value and the first the place. `Json.toText` prints without white
space.
-/

namespace LedgerClient

/-- A JSON value, or a part of a text that follows the grammar and has no value. -/
inductive Json where
  | null
  | bool (value : Bool)
  | integer (value : Int)
  | double (value : Binary64)
  | string (text : String)
  | array (items : List Json)
  | object (members : List (String × Json))
  | unreadable
  deriving Inhabited

namespace Json

/-- Members with one more in front; if its name occurs again, the later value moves to the front. -/
def putFirst (name : String) (value : Json) (rest : List (String × Json)) :
    List (String × Json) :=
  match rest.find? fun member => member.1 == name with
  | none => (name, value) :: rest
  | some later => (name, later.2) :: rest.filter fun member => member.1 != name

mutual

/-- The value read as a whole, if all of its parts are readable. -/
def settle? : Json → Option Json
  | null => some null
  | bool b => some (bool b)
  | integer n => some (integer n)
  | double x => some (double x)
  | string s => some (string s)
  | array items => (settleItems? items).map array
  | object members => (settleMembers? members).map object
  | unreadable => none

/-- The items of an array, each read as a whole. -/
def settleItems? : List Json → Option (List Json)
  | [] => some []
  | item :: items =>
    match settle? item, settleItems? items with
    | some x, some xs => some (x :: xs)
    | _, _ => none

/-- The members of an object, each read as a whole. -/
def settleMembers? : List (String × Json) → Option (List (String × Json))
  | [] => some []
  | (name, value) :: members =>
    match settle? value, settleMembers? members with
    | some x, some xs => some (putFirst name x xs)
    | _, _ => none

end

/-! ## Printing -/

/-- The digits of a control character's escape. -/
def controlDigits (n : Nat) : List Char :=
  ['0', '0', Nat.digitChar (n / 16), Nat.digitChar (n % 16)]

/-- A character as it stands inside quotes. -/
def escape (c : Char) : List Char :=
  if c = '"' then ['\\', '"']
  else if c = '\\' then ['\\', '\\']
  else if c = '\x08' then ['\\', 'b']
  else if c = '\x0c' then ['\\', 'f']
  else if c = '\n' then ['\\', 'n']
  else if c = '\r' then ['\\', 'r']
  else if c = '\t' then ['\\', 't']
  else if c.toNat < 32 then '\\' :: 'u' :: controlDigits c.toNat
  else [c]

/-- A text between quotes, after the text printed so far. -/
def putString (out : String) (s : String) : String :=
  (s.foldl (fun acc c => (escape c).foldl String.push acc) (out.push '"')).push '"'

mutual

/-- A value after the text printed so far. -/
def put (out : String) : Json → String
  | null => out ++ "null"
  | bool b => out ++ (if b then "true" else "false")
  | integer n => out ++ toString n
  | double x => out ++ x.toText
  | string s => putString out s
  | array items => (putItems (out.push '[') true items).push ']'
  | object members => (putMembers (out.push '\x7b') true members).push '\x7d'
  | unreadable => out

/-- The items of an array after the text printed so far. -/
def putItems (out : String) (first : Bool) : List Json → String
  | [] => out
  | item :: items => putItems (put (if first then out else out.push ',') item) false items

/-- The members of an object after the text printed so far. -/
def putMembers (out : String) (first : Bool) : List (String × Json) → String
  | [] => out
  | (name, value) :: members =>
    let out := putString (if first then out else out.push ',') name
    putMembers (put (out.push ':') value) false members

end

/-- The text of a value, without white space. -/
def toText (v : Json) : String := put "" v

/-! ## Members in order of their names -/

/-- Whether a name may stand before another: by the bytes of their UTF-8 forms. -/
def nameLe (a b : String × Json) : Bool := a.1 ≤ b.1

mutual

/-- The value with the members of every object in the order of their names. -/
def sorted : Json → Json
  | array items => array (sortedItems items)
  | object members => object ((sortedMembers members).mergeSort nameLe)
  | null => null
  | bool b => bool b
  | integer n => integer n
  | double x => double x
  | string s => string s
  | unreadable => unreadable

/-- The items of an array, each in order. -/
def sortedItems : List Json → List Json
  | [] => []
  | item :: items => sorted item :: sortedItems items

/-- The members of an object, each in order. -/
def sortedMembers : List (String × Json) → List (String × Json)
  | [] => []
  | (name, value) :: members => (name, sorted value) :: sortedMembers members

end

end Json

end LedgerClient
