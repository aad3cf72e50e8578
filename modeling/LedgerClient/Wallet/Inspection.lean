import LedgerClient.Ledger.Inspection
import LedgerClient.Wallet.Summary

/-!
# Inspecting wallets

What is shown of a key pair leaves out its private key.
-/

namespace LedgerClient.Wallet

open Inspect (the)

instance : Inspect Strategy where
  inspect
    | .asGiven => .string "Default"
    | .largestFirst => .string "LargestFirst"
    | .smallestFirst => .string "SmallestFirst"

instance : Inspect Selection where
  inspect s := .object [the "selected" s.selected, the "total" s.total, the "change" s.change,
    the "has_change" s.hasChange]

/-- The public key of a key pair and what follows from it. -/
def KeyPair.inspect (k : KeyPair) : List (String × Json) :=
  [the "public" k.publicKey, the "text" k.publicKey, the "verification" k.verification,
    the "hash" k.scriptHash, the "address" k.address, the "debug" k.summary]

end LedgerClient.Wallet
