import LedgerClient.Ledger.Witness
import LedgerClient.Script.Assembly
import LedgerClient.Wallet.KeyPair
import LedgerClient.Wallet.Selection

/-!
# Accounts

An account is something that signs, with the unspent outputs that it is known to own. How it signs
is open: a signer is the script that checks its signatures and a function that makes them. The
account is named by the hash of that script.
-/

namespace LedgerClient.Wallet

open Ledger (Hash160 Hash256 Unspent Witness)

/-- What signs for an account. -/
structure Signer where
  /-- The script that checks the signatures. -/
  verification : Bytes
  /-- The signature of a message. -/
  sign : Bytes → Except Error Bytes

/-- A key pair as a signer. -/
def KeyPair.signer (k : KeyPair) : Signer := ⟨k.verification, k.sign⟩

/-- A signer with the unspent outputs of its account, in the order in which they were added. -/
structure Account where
  signer : Signer
  unspent : List Unspent

namespace Account

/-- The account of a signer, without outputs. -/
def ofSigner (signer : Signer) : Account := ⟨signer, []⟩

/-- The name of the account. -/
def scriptHash (a : Account) : Hash160 := Hash160.ofScript a.signer.verification

/-- The address of the account. -/
def address (a : Account) : String := a.scriptHash.address

/-! ## Known outputs -/

/-- The account with one more output. -/
def add (a : Account) (u : Unspent) : Account := { a with unspent := a.unspent ++ [u] }

/-- The account with more outputs. -/
def addAll (a : Account) (us : List Unspent) : Account := { a with unspent := a.unspent ++ us }

/-- The account without the outputs of an asset. -/
def clear (a : Account) (asset : Hash256) : Account :=
  { a with unspent := a.unspent.filter fun u => u.asset != asset }

/-- The outputs of an asset, in the order in which they were added. -/
def unspentOf (a : Account) (asset : Hash256) : List Unspent :=
  Selection.ofAsset asset a.unspent

/-- What the outputs of an asset are worth together. -/
def balance (a : Account) (asset : Hash256) : Except Error Decimal :=
  match Decimal.sum? .zero ((a.unspentOf asset).map (·.value)) with
  | some total => .ok total
  | none => .error (.amount (.balanceSum asset))

/-- Outputs of an asset that cover an amount. -/
def select (a : Account) (asset : Hash256) (required : Decimal) (strategy : Strategy) :
    Except Error Selection :=
  Selection.select strategy asset required (a.unspentOf asset)

/-! ## Signing -/

/-- The signature of a message. -/
def sign (a : Account) (message : Bytes) : Except Error Bytes := a.signer.sign message

/-- The witness that the account agrees to a message: a push of its signature and the script that
checks it. -/
def witness (a : Account) (message : Bytes) : Except Error Witness := do
  let signature ← a.sign message
  let invocation ← (Script.pushData signature).mapError .script
  return Witness.ofScripts invocation a.signer.verification

end Account

end LedgerClient.Wallet
