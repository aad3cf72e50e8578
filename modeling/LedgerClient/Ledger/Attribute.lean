import LedgerClient.Ledger.Digest

/-!
# Attributes

An attribute adds data to a transaction under a usage, which also fixes how the data is sent: with a
fixed length, after one byte for its length, or after a count. `Attribute.ofData` makes an attribute
if its usage exists and admits data of that length; since the type carries both facts, every
attribute can be sent.
-/

namespace LedgerClient.Ledger

/-- What the data of an attribute is for. -/
inductive Usage where
  /-- The hash of a contract. -/
  | contractHash
  /-- A public key for a key exchange, with an even second coordinate. -/
  | ecdh02
  /-- A public key for a key exchange, with an odd second coordinate. -/
  | ecdh03
  /-- A further account that has to agree. -/
  | script
  /-- A vote. -/
  | vote
  /-- The address of a description kept elsewhere. -/
  | descriptionUrl
  /-- A short description. -/
  | description
  /-- A hash for free use, in one of the slots 1 to 15. -/
  | hash (slot : UInt8)
  /-- A remark, in one of the slots 0 to 15. -/
  | remark (slot : UInt8)
  deriving DecidableEq, Repr

namespace Usage

/-- The byte of a usage; of a slot only the low four bits count. -/
def tag : Usage → UInt8
  | .contractHash => 0x00
  | .ecdh02 => 0x02
  | .ecdh03 => 0x03
  | .script => 0x20
  | .vote => 0x30
  | .descriptionUrl => 0x81
  | .description => 0x90
  | .hash slot => 0xa0 ||| (slot &&& 0x0f)
  | .remark slot => 0xf0 ||| (slot &&& 0x0f)

/-- The usage that a byte stands for. -/
def ofTag? (b : UInt8) : Option Usage :=
  if b = 0x00 then some .contractHash
  else if b = 0x02 then some .ecdh02
  else if b = 0x03 then some .ecdh03
  else if b = 0x20 then some .script
  else if b = 0x30 then some .vote
  else if b = 0x81 then some .descriptionUrl
  else if b = 0x90 then some .description
  else if 0xa1 ≤ b ∧ b ≤ 0xaf then some (.hash (b &&& 0x0f))
  else if 0xf0 ≤ b then some (.remark (b &&& 0x0f))
  else none

/-- The name of a usage. -/
def name : Usage → String
  | .contractHash => "ContractHash"
  | .ecdh02 => "Ecdh02"
  | .ecdh03 => "Ecdh03"
  | .script => "Script"
  | .vote => "Vote"
  | .descriptionUrl => "DescriptionUrl"
  | .description => "Description"
  | .hash slot => "Hash(" ++ toString slot.toNat ++ ")"
  | .remark slot => "Remark(" ++ toString slot.toNat ++ ")"

/-- How the data of a usage is sent. -/
inductive Layout where
  /-- Always with this length. -/
  | fixed (length : Nat)
  /-- After one byte for its length. -/
  | shortCounted
  /-- After a count. -/
  | counted
  deriving DecidableEq, Repr

/-- How the data of a usage is sent. -/
def layout : Usage → Layout
  | .contractHash | .ecdh02 | .ecdh03 | .vote | .hash _ => .fixed Limits.hashSize
  | .script => .fixed Limits.scriptHashSize
  | .descriptionUrl => .shortCounted
  | .description | .remark _ => .counted

/-- The largest number of bytes after a count. -/
def maxCounted : Nat := 65535

/-- Whether a usage admits data of the given length. -/
def admits (u : Usage) (length : Nat) : Bool :=
  match u.layout with
  | .fixed n => length == n
  | .shortCounted => length ≤ 255
  | .counted => length ≤ maxCounted

/-- Whether the slot of a usage exists. -/
def slotExists : Usage → Bool
  | .hash slot => 1 ≤ slot && slot ≤ 15
  | .remark slot => slot ≤ 15
  | _ => true

/-- The slot of a usage read from a byte exists. -/
theorem slotExists_of_ofTag? {b : UInt8} {u : Usage} (h : ofTag? b = some u) :
    u.slotExists = true := by
  have hmod : (b &&& 0x0f).toNat = b.toNat % 16 := by
    rw [UInt8.toNat_and]
    exact Nat.and_two_pow_sub_one_eq_mod b.toNat 4
  simp only [ofTag?] at h
  repeat' split at h
  all_goals first
    | cases h; rfl
    | cases h
  all_goals simp only [slotExists, Bool.and_eq_true, decide_eq_true_eq, UInt8.le_iff_toNat_le,
    UInt8.reduceToNat, hmod] at *
  all_goals omega

end Usage

/-- Data under a usage. -/
structure Attribute where
  usage : Usage
  data : Bytes
  slotExists_usage : usage.slotExists = true
  admits_length : usage.admits data.length = true
  deriving DecidableEq

namespace Attribute

/-- The error of a usage whose slot does not exist. -/
def slotError : Usage → Error
  | .hash slot => .noHashSlot slot
  | .remark slot => .noRemarkSlot slot
  | _ => .noHashSlot 0

/-- The attribute with the given usage and data. -/
def ofData (usage : Usage) (data : Bytes) : Except Error Attribute :=
  if hs : usage.slotExists = true then
    if hl : usage.admits data.length = true then .ok ⟨usage, data, hs, hl⟩
    else .error (.attributeLength data.length usage.tag)
  else .error (slotError usage)

/-- The attribute that names a further account. -/
def script (account : Hash160) : Attribute where
  usage := .script
  data := account.bytes
  slotExists_usage := rfl
  admits_length := by simp [Usage.admits, Usage.layout, account.length_bytes]

/-- A remark in the first slot. -/
def remark (data : Bytes) : Except Error Attribute := ofData (.remark 0) data

/-- The name of the usage and the data. -/
def toText (a : Attribute) : String := a.usage.name ++ "(" ++ Hex.encode a.data ++ ")"

/-! ## On the wire -/

/-- The bytes of an attribute. -/
def encode (a : Attribute) : Bytes :=
  a.usage.tag ::
    match a.usage.layout with
    | .fixed _ => a.data
    | .shortCounted => UInt8.ofNat a.data.length :: a.data
    | .counted => Wire.Counted.write a.data

/-- The number of bytes of an attribute. -/
def encodedSize (a : Attribute) : Nat :=
  1 + match a.usage.layout with
    | .fixed length => length
    | .shortCounted => 1 + a.data.length
    | .counted => Wire.Counted.size a.data

/-- The data of the next bytes, sent as a usage asks; its length is one that the usage admits. -/
def decodeData (u : Usage) : Wire.Decoder { bs : Bytes // u.admits bs.length = true } :=
  match h : u.layout with
  | .fixed length => do
    let ⟨bs, hbs⟩ ← Wire.Decoder.takeSized length
    return ⟨bs, by simp [Usage.admits, h, hbs]⟩
  | .shortCounted => do
    let length ← Wire.Decoder.byte
    let ⟨bs, hbs⟩ ← Wire.Decoder.takeSized length.toNat
    return ⟨bs, by have := length.toNat_lt; simp [Usage.admits, h, hbs]; omega⟩
  | .counted => do
    let ⟨bs, hbs⟩ ← Wire.Counted.readBounded Usage.maxCounted
    return ⟨bs, by simp [Usage.admits, h, hbs]⟩

/-- The attribute of the next bytes. -/
def decode : Wire.Decoder Attribute := do
  let offset ← Wire.Decoder.offset
  let tag ← Wire.Decoder.byte
  match h : Usage.ofTag? tag with
  | none => Wire.Decoder.malformed offset (.unknownUsage tag)
  | some usage =>
    let ⟨data, hd⟩ ← decodeData usage
    return ⟨usage, data, Usage.slotExists_of_ofTag? h, hd⟩

end Attribute

end LedgerClient.Ledger
