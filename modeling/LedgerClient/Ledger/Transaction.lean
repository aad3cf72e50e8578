import LedgerClient.Ledger.Attribute
import LedgerClient.Ledger.Cosigner
import LedgerClient.Ledger.Witness

/-!
# General transactions

A transaction gathers fees, validity, signers and a script for inspection. Only its version, its
attributes and its witnesses are sent. What is signed is the part before the witnesses, and the
transaction is named by the double hash of that part, so that adding witnesses changes neither.
-/

namespace LedgerClient.Ledger

/-- Attributes with more added, if a transaction can hold them all. -/
def addAttributes (attributes more : List Attribute) : Except Error (List Attribute) :=
  if Limits.maxAttributes < attributes.length + more.length then .error .tooManyAttributes
  else .ok (attributes ++ more)

/-- A transaction of any kind. -/
structure Transaction where
  version : UInt8
  nonce : Option UInt32
  validUntilBlock : Option UInt32
  sender : Option Hash160
  systemFee : Option Int
  networkFee : Option Int
  attributes : List Attribute
  cosigners : List Cosigner
  script : Bytes
  witnesses : List Witness
  deriving DecidableEq

namespace Transaction

/-- The transaction with the given version and nothing else set. -/
def blank (version : UInt8) : Transaction :=
  ⟨version, none, none, none, none, none, [], [], [], []⟩

/-- The transaction from which new ones are built. -/
def new : Transaction := blank Limits.transactionVersion

/-! ## Building -/

/-- The transaction with attributes added. -/
def withAttributes (t : Transaction) (more : List Attribute) : Except Error Transaction := do
  return { t with attributes := ← addAttributes t.attributes more }

/-- The transaction with cosigners added. -/
def withCosigners (t : Transaction) (more : List Cosigner) : Transaction :=
  { t with cosigners := t.cosigners ++ more }

/-- The transaction with witnesses added, in order. -/
def addWitnesses (t : Transaction) (batch : List Witness) : Except Error Transaction := do
  return { t with witnesses := ← Witness.insert t.witnesses batch }

/-! ## On the wire -/

/-- The part that is signed. -/
def signedPart (t : Transaction) : Bytes :=
  t.version :: Wire.Counted.writeList Attribute.encode t.attributes

/-- The name of the transaction. -/
def id (t : Transaction) : Hash256 := Hash256.ofContent t.signedPart

/-- The bytes of a transaction. -/
def encode (t : Transaction) : Bytes :=
  t.signedPart ++ Wire.Counted.writeList Witness.encode t.witnesses

/-- The number of bytes of a transaction. -/
def encodedSize (t : Transaction) : Nat :=
  1 + Wire.Counted.listSize Attribute.encodedSize t.attributes +
    Wire.Counted.listSize Witness.encodedSize t.witnesses

/-- The transaction of the next bytes. -/
def decode : Wire.Decoder Transaction := do
  let version ← Wire.Decoder.byte
  let attributes ← Wire.Counted.readList Attribute.decode Limits.maxAttributes
  let witnesses ← Wire.Counted.readList Witness.decode Limits.maxTransactionItems
  return { blank version with attributes := attributes, witnesses := witnesses }

end Transaction

end LedgerClient.Ledger
