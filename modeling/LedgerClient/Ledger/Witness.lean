import LedgerClient.Ledger.Digest

/-!
# Witnesses

A witness is what proves that an account agreed to a transaction: a script that puts the proof on
the stack and a script that checks it. The account is known by the hash of the checking script,
unless that script is empty, when the hash has to be named.

The witnesses of a transaction are kept in the order of those hashes. `Witness.insert` adds a batch
and restores the order; it adds nothing if one of the batch names no hash.
-/

namespace LedgerClient.Ledger

/-- A proof of agreement. -/
structure Witness where
  /-- The script that puts the proof on the stack. -/
  invocation : Bytes
  /-- The script that checks the proof. -/
  verification : Bytes
  /-- The account that agreed, if it is known. -/
  scriptHash : Option Hash160
  deriving DecidableEq, Inhabited

namespace Witness

/-- A witness of the account whose script checks it; an empty script names no account. -/
def ofScripts (invocation verification : Bytes) : Witness where
  invocation := invocation
  verification := verification
  scriptHash := if verification.isEmpty then none else some (Hash160.ofScript verification)

/-! ## On the wire -/

/-- The bytes of a witness: its two scripts. -/
def encode (w : Witness) : Bytes :=
  Wire.Counted.write w.invocation ++ Wire.Counted.write w.verification

/-- The number of bytes of a witness. -/
def encodedSize (w : Witness) : Nat :=
  Wire.Counted.size w.invocation + Wire.Counted.size w.verification

/-- The witness of the next bytes. -/
def decode : Wire.Decoder Witness := do
  let invocation ← Wire.Counted.read Limits.maxScriptLength
  let verification ← Wire.Counted.read Limits.maxScriptLength
  return ofScripts invocation verification

/-! ## The order of witnesses -/

/-- The order of accounts, an unknown one first. -/
def compareHash : Option Hash160 → Option Hash160 → Ordering
  | none, none => .eq
  | none, some _ => .lt
  | some _, none => .gt
  | some a, some b => Hash160.compare a b

/-- Whether a witness may stand before another. -/
def le (v w : Witness) : Bool := compareHash v.scriptHash w.scriptHash != .gt

/-- Witnesses in the order of their accounts; those of one account keep their order. -/
def sort (ws : List Witness) : List Witness := ws.mergeSort le

/-- Witnesses with a batch added, in order. -/
def insert (ws batch : List Witness) : Except Error (List Witness) :=
  if batch.any (·.scriptHash.isNone) then .error .witnessWithoutHash else .ok (sort (ws ++ batch))

end Witness

end LedgerClient.Ledger
