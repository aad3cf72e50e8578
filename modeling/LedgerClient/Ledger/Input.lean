import LedgerClient.Ledger.Digest

/-!
# Inputs and unspent outputs

An input spends an output of an earlier transaction by naming that transaction and the output's
place in it. What an account may spend is known as unspent outputs: each is such a place with the
asset and the amount that lies there. `Unspent.ofTexts` checks that the amount is positive and one
that the ledger can express.
-/

namespace LedgerClient.Ledger

/-- The place of an output in an earlier transaction. -/
structure Input where
  transaction : Hash256
  index : UInt16
  deriving DecidableEq

namespace Input

/-- The bytes of an input. -/
def encode (i : Input) : Bytes :=
  i.transaction.encode ++ Bytes.littleEndian 2 i.index.toNat

/-- The number of bytes of an input. -/
def encodedSize (_ : Input) : Nat := Limits.hashSize + 2

/-- The input of the next bytes. -/
def decode : Wire.Decoder Input := do
  let transaction ← Digest.decode
  let index ← Wire.Decoder.number 2
  return ⟨transaction, UInt16.ofNat index⟩

end Input

/-! ## Amounts -/

/-- The decimal that a text spells, blank characters at its ends aside. -/
def parseAmount (s : String) : Except Error Decimal :=
  (Decimal.parse (Text.trim s)).mapError (.amountText s)

/-- A decimal as a positive amount of the ledger. -/
def positiveAmount (purpose : Purpose) (value : Decimal) :
    Except Error { a : Fixed8 // 0 < a.raw } :=
  match Fixed8.ofDecimal value with
  | .error e => .error (.purposeRange purpose e)
  | .ok a => if h : 0 < a.raw then .ok ⟨a, h⟩ else .error (.notPositive purpose value)

/-! ## Unspent outputs -/

/-- An output that can be spent, with the asset and the amount that it holds. -/
structure Unspent where
  transaction : Hash256
  index : UInt16
  asset : Hash256
  value : Decimal
  deriving DecidableEq

namespace Unspent

/-- The unspent output that texts describe. -/
def ofTexts (transaction : String) (index : UInt16) (asset value : String) :
    Except Error Unspent := do
  let transaction ← Digest.parse transaction
  let asset ← Digest.parse asset
  let value ← parseAmount value
  let _ ← positiveAmount .unspent value
  return ⟨transaction, index, asset, value.normalize⟩

/-- The input that spends it. -/
def toInput (u : Unspent) : Input := ⟨u.transaction, u.index⟩

end Unspent

end LedgerClient.Ledger
