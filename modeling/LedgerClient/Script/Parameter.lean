import LedgerClient.Ledger.Address

/-!
# Arguments of contracts

What a contract can be called with: bytes of several kinds, truth values, whole numbers of any size,
hashes, texts, and arrays of all of these, nested as deep as wished. A contract declares which kinds
it expects by their tags; two of the kinds can be declared but not given.
-/

namespace LedgerClient.Script

/-- What an argument or a result can be. -/
inductive Kind where
  | signature
  | boolean
  | integer
  | hash160
  | hash256
  | byteArray
  | publicKey
  | string
  | array
  | interopInterface
  | void
  deriving DecidableEq, Repr, Inhabited

namespace Kind

/-- All kinds, in the order of their tags. -/
def all : List Kind :=
  [signature, boolean, integer, hash160, hash256, byteArray, publicKey, string, array,
    interopInterface, void]

/-- The tag of a kind. -/
def tag : Kind → UInt8
  | signature => 0x00
  | boolean => 0x01
  | integer => 0x02
  | hash160 => 0x03
  | hash256 => 0x04
  | byteArray => 0x05
  | publicKey => 0x06
  | string => 0x07
  | array => 0x10
  | interopInterface => 0xf0
  | void => 0xff

/-- The kind that a tag stands for. -/
def ofTag? (b : UInt8) : Option Kind := all.find? fun kind => kind.tag == b

/-- The name of a kind. -/
def name : Kind → String
  | signature => "Signature"
  | boolean => "Boolean"
  | integer => "Integer"
  | hash160 => "Hash160"
  | hash256 => "Hash256"
  | byteArray => "ByteArray"
  | publicKey => "PublicKey"
  | string => "String"
  | array => "Array"
  | interopInterface => "InteropInterface"
  | void => "Void"

/-- The kind with the given name. -/
def ofName? (s : String) : Option Kind := all.find? fun kind => kind.name == s

/-- The byte of a kind stands for that kind. -/
theorem ofTag?_tag (kind : Kind) : ofTag? kind.tag = some kind := by
  cases kind <;> decide

/-- A byte that stands for a kind is the byte of it. -/
theorem tag_of_ofTag? {b : UInt8} {kind : Kind} (h : ofTag? b = some kind) : kind.tag = b := by
  simpa using List.find?_some h

end Kind

/-- An argument of a contract. -/
inductive Parameter where
  | signature (bytes : Bytes)
  | boolean (value : Bool)
  | integer (value : Int)
  | hash160 (hash : Ledger.Hash160)
  | hash256 (hash : Ledger.Hash256)
  | byteArray (bytes : Bytes)
  | publicKey (bytes : Bytes)
  | string (text : String)
  | array (items : List Parameter)

namespace Parameter

/-- The kind of an argument. -/
def kind : Parameter → Kind
  | signature _ => .signature
  | boolean _ => .boolean
  | integer _ => .integer
  | hash160 _ => .hash160
  | hash256 _ => .hash256
  | byteArray _ => .byteArray
  | publicKey _ => .publicKey
  | string _ => .string
  | array _ => .array

/-- A byte array from hexadecimal text, which may have `0x` in front. -/
def byteArrayOfHex (s : String) : Except Ledger.Error Parameter :=
  let digits :=
    match s.toList with
    | '0' :: 'x' :: rest => String.ofList rest
    | _ => s
  match Hex.decode digits with
  | .ok bytes => .ok (.byteArray bytes)
  | .error e => .error (.parameterHex e)

/-- A byte array with the script hash of an address. -/
def byteArrayOfAddress (address : String) : Except Ledger.Error Parameter := do
  return .byteArray (← Ledger.Hash160.ofAddress address).bytes

/-! ## Whole numbers from text -/

/-- The number that the digits after those read so far spell; underscores mean nothing. -/
def naturalFrom (total : Nat) : List Char → Option Nat
  | [] => some total
  | '_' :: cs => naturalFrom total cs
  | c :: cs => if c.isDigit then naturalFrom (10 * total + (c.toNat - 48)) cs else none

/-- Digits in a row: the number that they spell, and ten to the power of how many they are. -/
structure Block where
  number : Nat
  unit : Nat

/-- The number that blocks spell, the last digits first. -/
def total (blocks : List Block) : Nat :=
  blocks.foldr (fun block n => block.number + block.unit * n) 0

/-- Blocks with one more after them, which is joined with those before it that are as long. -/
def addBlock (block : Block) : List Block → List Block
  | [] => [block]
  | before :: blocks =>
    if before.unit = block.unit then
      addBlock ⟨block.number + block.unit * before.number, block.unit * before.unit⟩ blocks
    else block :: before :: blocks

/-- The number that digits spell after those in the blocks. Of all that was read only a few blocks
are kept, and each digit is joined with others of its length only. -/
def naturalFromBlocks (blocks : List Block) : List Char → Option Nat
  | [] => some (total blocks)
  | '_' :: cs => naturalFromBlocks blocks cs
  | c :: cs =>
    if c.isDigit then naturalFromBlocks (addBlock ⟨c.toNat - 48, 10⟩ blocks) cs else none

/-- Merging a block into the blocks above it keeps the number that they spell. -/
theorem total_addBlock (block : Block) (blocks : List Block) :
    total (addBlock block blocks) = block.number + block.unit * total blocks := by
  induction blocks generalizing block with
  | nil => rfl
  | cons before blocks ih =>
    rw [addBlock]
    split
    · rw [ih]
      simp only [total, List.foldr_cons, Nat.mul_add, Nat.add_assoc, Nat.mul_assoc]
    · rfl

/-- Reading in blocks is reading digit by digit. -/
theorem naturalFromBlocks_eq (blocks : List Block) (cs : List Char) :
    naturalFromBlocks blocks cs = naturalFrom (total blocks) cs := by
  fun_induction naturalFromBlocks blocks cs with
  | case1 blocks => rfl
  | case2 blocks cs ih => rw [ih, naturalFrom]
  | case3 blocks c cs hc hdigit ih =>
    rw [ih, total_addBlock, naturalFrom, if_pos hdigit, Nat.add_comm]
    exact hc
  | case4 blocks c cs hc hdigit =>
    rw [naturalFrom, if_neg hdigit]
    exact hc

/-- The number that digits spell; the first character has to be one. -/
def naturalOfChars (cs : List Char) : Except Ledger.Error Nat :=
  match cs with
  | [] => .error .parameterIntegerEmpty
  | '_' :: _ => .error .parameterIntegerDigit
  | _ =>
    match naturalFromBlocks [] cs with
    | some n => .ok n
    | none => .error .parameterIntegerDigit

/-- The number that a text spells: digits after an optional sign. -/
def integerOfText (s : String) : Except Ledger.Error Int :=
  match s.toList with
  | '-' :: cs => (naturalOfChars cs).map fun n => -(n : Int)
  | '+' :: cs => (naturalOfChars cs).map Int.ofNat
  | cs => (naturalOfChars cs).map Int.ofNat

end Parameter

end LedgerClient.Script
