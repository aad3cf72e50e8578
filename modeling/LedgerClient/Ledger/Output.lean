import LedgerClient.Ledger.Address
import LedgerClient.Ledger.Input

/-!
# Outputs

An output pays an amount of an asset to an account. Amounts are positive, which the type records, so
that every output can be sent; amounts that differ only in how they were written are the same.
-/

namespace LedgerClient.Ledger

/-- A payment of a positive amount of an asset to an account. -/
structure Output where
  asset : Hash256
  amount : Fixed8
  recipient : Hash160
  amount_pos : 0 < amount.raw
  deriving DecidableEq

namespace Output

/-- The payment with the given parts. -/
def ofParts (asset : Hash256) (value : Decimal) (recipient : Hash160) : Except Error Output := do
  let ⟨amount, h⟩ ← positiveAmount .output value
  return ⟨asset, amount, recipient, h⟩

/-- The payment that texts describe, the recipient by an address. -/
def ofTexts (asset value address : String) : Except Error Output := do
  let asset ← Digest.parse asset
  let value ← parseAmount value
  let recipient ← Hash160.ofAddress address
  ofParts asset value recipient

/-- The amount as a decimal. -/
def value (o : Output) : Decimal := o.amount.toDecimal

/-- What is paid to whom. -/
def toText (o : Output) : String :=
  o.value.toText ++ " of " ++ o.asset.toHex ++ " to " ++ o.recipient.address

/-! ## On the wire -/

/-- The bytes of an output. -/
def encode (o : Output) : Bytes := o.asset.encode ++ o.amount.encode ++ o.recipient.encode

/-- The number of bytes of an output. -/
def encodedSize (_ : Output) : Nat := Limits.hashSize + Fixed8.size + Limits.scriptHashSize

/-- The output of the next bytes. -/
def decode : Wire.Decoder Output := do
  let asset ← Digest.decode
  let amount := Fixed8.ofWord (← Wire.Decoder.number Fixed8.size)
  if h : 0 < amount.raw then
    let recipient ← Digest.decode
    return ⟨asset, amount, recipient, h⟩
  else throw (.refused (.outputValue amount))

end Output

end LedgerClient.Ledger
