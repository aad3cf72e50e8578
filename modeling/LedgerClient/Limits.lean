/-!
# Sizes and limits of the ledger

The numbers that every node of the network agrees on, and the two assets that every ledger has.
-/

namespace LedgerClient.Limits

/-- The number of bytes of a transaction's or asset's hash. -/
def hashSize : Nat := 32

/-- The number of bytes of a script's hash. -/
def scriptHashSize : Nat := 20

/-- The number of bytes of an address once its text is decoded: version, script hash, checksum. -/
def addressPayloadSize : Nat := 25

/-- The first byte of every address. -/
def addressVersion : UInt8 := 0x17

/-- The largest number of bytes of a script. -/
def maxScriptLength : Nat := 1048576

/-- The largest number of bytes that one instruction pushes. -/
def maxPushLength : Nat := 1048576

/-- The largest number of bytes of a transaction. -/
def maxTransactionSize : Nat := 102400

/-- The largest number of attributes of a transaction. -/
def maxAttributes : Nat := 16

/-- The largest number of inputs, of outputs and of witnesses of a transaction. -/
def maxTransactionItems : Nat := 65535

/-- The first byte of every invocation. -/
def invocationTag : UInt8 := 0xd1

/-- The version that new transactions have. -/
def transactionVersion : UInt8 := 1

/-- The number of bytes of a fresh remark. -/
def remarkSize : Nat := 12

/-- The asset in which fees are paid. -/
def feeAssetHex : String := "602c79718b16e442de58778e148d0b1084e3b2dffd5de6b7b16cee7969282de7"

/-- The asset that governs the network. -/
def governingAssetHex : String :=
  "c56f33fc6ecfcd0c225c4ab356fee59390af8560be0e930faebe74a6daff7c9b"

end LedgerClient.Limits
