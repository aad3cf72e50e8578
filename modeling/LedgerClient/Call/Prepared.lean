import LedgerClient.Call.Plan

/-!
# Signing and sending a call

An assembled call is signed once: its account adds one witness, and signing again changes nothing.
Only a signed call is sent. The name of the transaction is that of the part before the witnesses, so
that signing does not change it.
-/

namespace LedgerClient.Call.Prepared

open Ledger (Hash256)
open Rpc (Failure Node)

/-- The call with the witness of its account. -/
def sign (p : Prepared) : Except Error Prepared :=
  if p.signed then .ok p
  else do
    let witness ← (p.account.witness p.transaction.signedPart).mapError .wallet
    let transaction ← (p.transaction.addWitnesses [witness]).mapError .ledger
    return { p with transaction := transaction, signed := true }

/-- The bytes of the transaction in hexadecimal. -/
def rawText (p : Prepared) : String := Hex.encode p.transaction.encode

/-- The failure of a transaction that the node did not accept. -/
def rejection (p : Prepared) : Failure :=
  ⟨Failure.rejectedCode, "node refused to relay transaction " ++ p.id.toHex⟩

/-- The name of the transaction, once a node has accepted it. -/
def send {σ : Type} (p : Prepared) (node : Node σ) (s : σ) : Except Error Hash256 × σ :=
  if p.signed then
    let (answer, s) := node.relay p.rawText s
    match answer with
    | .ok true => (.ok p.id, s)
    | .ok false => (.error (.node p.rejection), s)
    | .error failure => (.error (.node failure), s)
  else (.error .notSigned, s)

end LedgerClient.Call.Prepared
