import LedgerClient.Ledger.Error
import LedgerClient.Wire.Compact

/-!
# Script hashes and transaction ids

A script is known by 20 bytes and a transaction or an asset by 32. Both are stored and sent with
the least significant byte first and shown as hexadecimal text with the most significant byte
first; the text may be given with `0x` in front and in either case. They are ordered as the numbers
they spell, script hashes by comparing three words and the longer hashes byte by byte, both from
the most significant end. A script hash is its three words (`Hash160.words`, `Hash160.ofWords`) as
much as its bytes.
-/

namespace LedgerClient.Ledger

/-- A hash of `size` bytes, least significant first. -/
structure Digest (size : Nat) where
  bytes : Bytes
  length_bytes : bytes.length = size
  deriving DecidableEq

/-- The hash of a script, which also names a contract or an account. -/
abbrev Hash160 := Digest Limits.scriptHashSize

/-- The hash that names a transaction or an asset. -/
abbrev Hash256 := Digest Limits.hashSize

namespace Digest

variable {size : Nat}

/-- The hash of zero bytes only. -/
def zero : Digest size := ⟨List.replicate size 0, by simp⟩

instance : Inhabited (Digest size) := ⟨zero⟩

/-- Whether all bytes are zero. -/
def isZero (h : Digest size) : Bool := h.bytes.all (· == 0)

/-- The hash made of the given bytes. -/
def ofBytes (bs : Bytes) : Except Error (Digest size) :=
  if h : bs.length = size then .ok ⟨bs, h⟩ else .error (.hashLength size bs.length)

/-- A text without a leading `0x` or `0X`. -/
def stripMark (s : String) : String :=
  match s.toList with
  | '0' :: 'x' :: rest => String.ofList rest
  | '0' :: 'X' :: rest => String.ofList rest
  | _ => s

/-- The hash that a hexadecimal text spells, most significant byte first. -/
def parse (s : String) : Except Error (Digest size) :=
  let digits := stripMark s
  let length := digits.utf8ByteSize
  if length ≠ 2 * size then .error (.hashTextLength size length)
  else
    match Hex.decode digits with
    | .error e => .error (.hashText size e)
    | .ok bs => ofBytes bs.reverse

/-- The hexadecimal text of a hash, most significant byte first. -/
def toHex (h : Digest size) : String := Hex.encode h.bytes.reverse

/-- The number that a hash spells. -/
def toNat (h : Digest size) : Nat := Bytes.toNat h.bytes

/-! ## On the wire -/

/-- The bytes of a hash. -/
def encode (h : Digest size) : Bytes := h.bytes

/-- The number of bytes of a hash. -/
def encodedSize (_ : Digest size) : Nat := size

/-- The hash of the next bytes. -/
def decode : Wire.Decoder (Digest size) := do
  let ⟨bs, h⟩ ← Wire.Decoder.takeSized size
  return ⟨bs, h⟩

end Digest

namespace Hash160

/-- The three words of a script hash: 8, 8 and 4 bytes, from the least significant end. -/
def words (h : Hash160) : Nat × Nat × Nat :=
  (Bytes.toNat (h.bytes.take 8), Bytes.toNat ((h.bytes.drop 8).take 8),
    Bytes.toNat (h.bytes.drop 16))

/-- The script hash with three given words, from the least significant on. -/
def ofWords (low mid : UInt64) (high : UInt32) : Hash160 where
  bytes := Bytes.littleEndian 8 low.toNat ++
    (Bytes.littleEndian 8 mid.toNat ++ Bytes.littleEndian 4 high.toNat)
  length_bytes := by simp [Limits.scriptHashSize]

/-- The numeric order of script hashes, by their words from the most significant on. -/
def compare (a b : Hash160) : Ordering :=
  let (low, mid, high) := words a
  let (low', mid', high') := words b
  (Ord.compare high high').then ((Ord.compare mid mid').then (Ord.compare low low'))

/-- The hash of a script. -/
def ofScript (script : Bytes) : Hash160 := ⟨Hash.hash160 script, Hash.length_hash160 script⟩

end Hash160

namespace Hash256

/-- The order of byte lists of one length, by the first bytes that differ. -/
def compareBytes : Bytes → Bytes → Ordering
  | a :: as, b :: bs => (Ord.compare a.toNat b.toNat).then (compareBytes as bs)
  | [], [] => .eq
  | [], _ :: _ => .lt
  | _ :: _, [] => .gt

/-- The numeric order of hashes, by their bytes from the most significant on. -/
def compare (a b : Hash256) : Ordering := compareBytes a.bytes.reverse b.bytes.reverse

/-- The hash that names the transaction or asset with the given bytes. -/
def ofContent (content : Bytes) : Hash256 :=
  ⟨Hash.hash256 content, Hash.length_hash256 content⟩

/-- The asset in which fees are paid. -/
def feeAsset : Hash256 := (Digest.parse Limits.feeAssetHex).toOption.getD .zero

/-- The asset that governs the network. -/
def governingAsset : Hash256 := (Digest.parse Limits.governingAssetHex).toOption.getD .zero

end Hash256

end LedgerClient.Ledger
