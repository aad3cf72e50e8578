import LedgerClient.Wallet.Account

/-!
# Summaries for logs

One line that says what a value holds and leaves out what must not be seen: of a key pair only the
public key, of an account its name and its outputs, grouped by asset in the order of the assets.
-/

namespace LedgerClient

/-- The summary of a script hash. -/
def Ledger.Hash160.summary (h : Ledger.Hash160) : String := "UInt160(" ++ h.toHex ++ ")"

/-- The summary of a transaction's or asset's hash. -/
def Ledger.Hash256.summary (h : Ledger.Hash256) : String := "UInt256(" ++ h.toHex ++ ")"

/-- The summary of an unspent output. -/
def Ledger.Unspent.summary (u : Ledger.Unspent) : String :=
  "Utxo \x7b tx_id: " ++ Ledger.Hash256.summary u.transaction ++ ", index: " ++
    toString u.index.toNat ++ ", asset_id: " ++ Ledger.Hash256.summary u.asset ++ ", value: " ++
    u.value.toText ++ " \x7d"

namespace Wallet

/-- The summary of a key pair. -/
def KeyPair.summary (k : KeyPair) : String :=
  "KeyPair \x7b public_key: \"" ++ Hex.encode k.publicKey ++ "\", .. \x7d"

namespace Account

/-- The known outputs by asset, in the order of the assets. -/
def groups (a : Account) : List (List Ledger.Unspent) :=
  (a.unspent.mergeSort fun u v => Ledger.Hash256.compare u.asset v.asset != .gt).splitBy
    fun u v => u.asset == v.asset

/-- The summary of the outputs of one asset. -/
def groupSummary : List Ledger.Unspent → String
  | [] => ""
  | u :: us =>
    Ledger.Hash256.summary u.asset ++ ": [" ++
      ", ".intercalate ((u :: us).map Ledger.Unspent.summary) ++ "]"

/-- The summary of an account. -/
def summary (a : Account) : String :=
  "Account \x7b script_hash: " ++ Ledger.Hash160.summary a.scriptHash ++ ", utxos: \x7b" ++
    ", ".intercalate (a.groups.map groupSummary) ++ "\x7d, .. \x7d"

end Account

end Wallet

end LedgerClient
