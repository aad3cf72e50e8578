import LedgerClient.Ledger.Digest
import LedgerClient.Script.Error
import LedgerClient.Signature.Error

/-!
# Why a wallet refuses
-/

namespace LedgerClient.Wallet

/-- Why an exported key cannot be read. -/
inductive ExportError where
  /-- The text holds no payload. -/
  | text (e : Base58Check.Error)
  /-- The payload has the wrong length. -/
  | length (expected actual : Nat)
  /-- The payload has another version. -/
  | version (byte : UInt8)
  /-- The payload does not end with the mark of a compressed key. -/
  | compression
  deriving DecidableEq

/-- The wording of an error. -/
def ExportError.message : ExportError → String
  | .text e => e.message
  | .length expected actual =>
    "payload must be " ++ toString expected ++ " bytes, got " ++ toString actual
  | .version byte => "unexpected version byte " ++ Hex.byteLiteral byte
  | .compression => "missing compressed flag"

/-- Why an amount cannot be handled. -/
inductive AmountError where
  /-- The amount to be covered is below zero. -/
  | negative (required : Decimal)
  /-- The sum of the selected outputs has too many bits. -/
  | selectionSum (asset : Ledger.Hash256)
  /-- The sum of all outputs has too many bits. -/
  | balanceSum (asset : Ledger.Hash256)
  deriving DecidableEq

/-- The wording of an error. -/
def AmountError.message : AmountError → String
  | .negative required => "required amount " ++ required.toText ++ " is negative"
  | .selectionSum asset => "sum of " ++ asset.toHex ++ " inputs overflows"
  | .balanceSum asset => "balance of " ++ asset.toHex ++ " overflows"

/-- Why a wallet refuses. -/
inductive Error where
  /-- Bytes that are no private key, or a key that cannot be used. -/
  | privateKey
  /-- A text that is no exported key. -/
  | exported (e : ExportError)
  /-- An amount that cannot be handled. -/
  | amount (e : AmountError)
  /-- All outputs of an asset together are worth less than what is to be covered. -/
  | insufficientFunds (asset : Ledger.Hash256) (required available shortfall : Decimal)
  /-- A difference of two amounts has too many bits. -/
  | difference
  /-- A signature that cannot be made or checked. -/
  | signature (e : Signature.Error)
  /-- A script that cannot be assembled. -/
  | script (e : Script.Error)
  deriving DecidableEq

/-- The wording of an error. -/
def Error.message : Error → String
  | .privateKey => "Invalid private key"
  | .exported e => "Invalid WIF format: " ++ e.message
  | .amount e => "Invalid amount: " ++ e.message
  | .insufficientFunds asset required available shortfall =>
    "insufficient funds for asset " ++ asset.toHex ++ ": required " ++ required.toText ++
      ", available " ++ available.toText ++ ", short by " ++ shortfall.toText
  | .difference => "the difference of two amounts is too large"
  | .signature e => "Cryptography error: " ++ e.message
  | .script e => "Script error: " ++ e.message

end LedgerClient.Wallet
