import LedgerClient.Text.Percent
import LedgerClient.Text.Split

/-!
# Hosts

The host in the address of a node is a name, an address of four bytes or, in brackets, an address of
eight words. All three have one form in which they are shown, whatever form they were given in:
names in lower case, bytes in decimal, words in hexadecimal with the longest run of zeros left out.

Where the scheme is a common one, a host that ends in a number has to be an address. Elsewhere a
host without brackets is any text without the characters that divide an address.
-/

namespace LedgerClient.Rpc.Host

open scoped Power

/-- Why characters are no host. -/
inductive Error where
  /-- A character that no name has, where there has to be a name. -/
  | name
  /-- A character that no host has. -/
  | character
  /-- The host ends in a number and is no address of four bytes. -/
  | fourBytes
  /-- What stands in brackets is no address of eight words, or the bracket is not closed. -/
  | eightWords
  deriving DecidableEq, Repr

/-- The wording of an error. -/
def Error.message : Error → String
  | .name => "invalid international domain name"
  | .character => "invalid domain character"
  | .fourBytes => "invalid IPv4 address"
  | .eightWords => "invalid IPv6 address"

/-- The characters that divide an address. -/
def dividers : List Char :=
  [' ', '#', '/', ':', '<', '>', '?', '@', '[', '\\', ']', '^', '|']

/-- Whether a character may stand in the name of a host. -/
def inName (c : Char) : Bool :=
  ! Text.isUnprinted c && ! dividers.contains c && c != '%'

/-! ## Addresses of four bytes -/

/-- The number that digits spell in a base of at most sixteen. -/
def spelled? (base : Nat) (ds : List Char) : Option Nat :=
  ds.foldlM (fun n c => do
    let d ← Text.hexDigit? c
    if d < base then some (base * n + d) else none) 0

/-- The number that one part of an address of four bytes spells: decimal, octal behind a zero, or
hexadecimal behind `0x`. -/
def part? : List Char → Option Nat
  | [] => none
  | '0' :: 'x' :: ds => spelled? 16 ds
  | '0' :: d :: ds => spelled? 8 (d :: ds)
  | ds => spelled? 10 ds

/-- The parts of a host between points, without an empty last one. -/
def parts (cs : List Char) : List (List Char) :=
  let ps := Text.pieces '.' cs
  if 1 < ps.length ∧ ps.getLast? = some [] then ps.dropLast else ps

/-- Whether a host has to be an address of four bytes. -/
def endsInNumber (cs : List Char) : Bool :=
  match (parts cs).getLast? with
  | none => false
  | some last => (! last.isEmpty && last.all Char.isDigit) || (part? last).isSome

/-- The number that an address of four bytes spells; its last part gives all bytes that are left. -/
def ofFourBytes? (cs : List Char) : Option Nat := do
  let ps := parts cs
  guard (ps.length ≤ 4)
  let numbers ← ps.mapM part?
  let front := numbers.dropLast
  let last ← numbers.getLast?
  guard (front.all (· ≤ 255))
  guard (last < 256 ^ (4 - front.length))
  return front.zipIdx.foldl (fun total (n, i) => total + n * 256 ^ (3 - i)) last

/-- An address of four bytes as it is shown. -/
def fourBytesText (value : Nat) : String :=
  ".".intercalate (([3, 2, 1, 0] : List Nat).map fun i => toString (value / 256 ^ i % 256))

/-! ## Addresses of eight words -/

/-- The byte that decimal digits without a zero in front of others spell. -/
def byte? (cs : List Char) : Option Nat :=
  match cs with
  | [] => none
  | '0' :: _ :: _ => none
  | ds => do
    let n ← spelled? 10 ds
    if n ≤ 255 then some n else none

/-- The two words of four bytes between points. -/
def wordsOfBytes? (cs : List Char) : Option (List Nat) := do
  match ← (Text.pieces '.' cs).mapM byte? with
  | [a, b, c, d] => return [256 * a + b, 256 * c + d]
  | _ => none

/-- The word that at most four digits spell. -/
def word? (cs : List Char) : Option Nat :=
  if cs.isEmpty ∨ 4 < cs.length then none else spelled? 16 cs

/-- The words between colons; the last two may be given as bytes if they end the address. -/
def groups? (last : Bool) : List (List Char) → Option (List Nat)
  | [] => some []
  | [group] =>
    if last ∧ group.contains '.' then wordsOfBytes? group else (word? group).map ([·])
  | group :: more => do
    let word ← word? group
    return word :: (← groups? last more)

/-- The words that characters spell, none if there are no characters. -/
def words? (last : Bool) (cs : List Char) : Option (List Nat) :=
  if cs.isEmpty then some [] else groups? last (Text.pieces ':' cs)

/-- Characters in front of the first two colons in a row and behind them; `front` stands for those
already passed, last first. -/
def splitAtGap? (front : List Char) : List Char → Option (List Char × List Char)
  | ':' :: ':' :: back => some (front.reverse, back)
  | c :: cs => splitAtGap? (c :: front) cs
  | [] => none

/-- The address of eight words that characters spell. Two colons in a row stand for as many zeros as
are missing, at least one. -/
def ofEightWords? (cs : List Char) : Option (List Nat) := do
  match splitAtGap? [] cs with
  | none =>
    let words ← words? true cs
    guard (words.length = 8)
    return words
  | some (front, back) =>
    let front ← words? false front
    let back ← words? true back
    guard (front.length + back.length < 8)
    return front ++ List.replicate (8 - front.length - back.length) 0 ++ back

/-- The number of zeros at the beginning of words. -/
def leadingZeros (words : List Nat) : Nat := (words.takeWhile (· == 0)).length

/-- Where the first of the longest runs of zeros starts, and its length. -/
def longestGap (words : List Nat) : Nat × Nat :=
  (List.range words.length).foldl (fun (best : Nat × Nat) i =>
    let length := leadingZeros (words.drop i)
    if best.2 < length then (i, length) else best) (0, 0)

/-- Words as they are shown between colons. -/
def groupsText (words : List Nat) : String :=
  ":".intercalate (words.map fun w => String.ofList (Nat.toDigits 16 w))

/-- An address of eight words as it is shown. The longest run of at least two zeros is left out. -/
def eightWordsText (words : List Nat) : String :=
  let (start, length) := longestGap words
  if length < 2 then groupsText words
  else groupsText (words.take start) ++ "::" ++ groupsText (words.drop (start + length))

/-! ## Hosts of either kind -/

/-- The host in brackets, if a host starts with one. -/
def bracketed? : List Char → Option (Except Error String)
  | '[' :: cs =>
    if cs.getLast? = some ']' then
      match ofEightWords? cs.dropLast with
      | some words => some (.ok ("[" ++ eightWordsText words ++ "]"))
      | none => some (.error .eightWords)
    else some (.error .eightWords)
  | _ => none

/-- The host behind a common scheme. -/
def ofCommon (cs : List Char) : Except Error String :=
  let name := (Text.percentDecode cs).map Char.toLower
  if ! name.all inName then .error .name
  else if endsInNumber name then
    match ofFourBytes? name with
    | some address => .ok (fourBytesText address)
    | none => .error .fourBytes
  else .ok (String.ofList name)

/-- The host behind any other scheme. -/
def ofOther (cs : List Char) : Except Error String :=
  if cs.any fun c => c == '\x00' || dividers.contains c then .error .character
  else .ok (String.ofList (Text.percentEncode [] cs))

/-- The host that characters spell. -/
def parse (common : Bool) (cs : List Char) : Except Error String :=
  match bracketed? cs with
  | some result => result
  | none => if common then ofCommon cs else ofOther cs

end LedgerClient.Rpc.Host
