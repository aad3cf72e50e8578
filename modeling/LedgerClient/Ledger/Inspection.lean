import LedgerClient.Json.Inspection
import LedgerClient.Ledger.Invocation

/-!
# Inspecting ledger values

An output is shown with the address that it pays, a cosigner with the names of its flags, and a
transaction with the part that is signed and the name that follows from it.
-/

namespace LedgerClient.Ledger

open Inspect (the digits)

instance {size : Nat} : Inspect (Digest size) := ⟨fun h => .string h.toHex⟩

/-- A hash in both byte orders, with its summary. -/
def Digest.inspectAll {size : Nat} (h : Digest size) (summary : String) : List (String × Json) :=
  [the "hex" h, the "bytes" h.bytes, the "debug" summary, the "zero" h.isZero]

instance : Inspect Fixed8 where
  inspect a := .object [("raw", digits a.raw), the "text" a.toText]

instance : Inspect Witness where
  inspect w := .object [the "invocation" w.invocation, the "verification" w.verification,
    the "hash" w.scriptHash]

instance : Inspect Cosigner where
  inspect c := .object [the "account" c.account, the "scopes" c.scope.byte,
    the "scopes_text" c.scope.toText, the "contracts" c.contracts,
    the "groups" (c.groups.map (·.bytes))]

instance : Inspect Attribute where
  inspect a := .object [the "usage" a.usage.tag, the "name" a.usage.name, the "data" a.data]

instance : Inspect Input where
  inspect i := .object [the "prev_hash" i.transaction, the "prev_index" i.index]

instance : Inspect Unspent where
  inspect u := .object [the "tx" u.transaction, the "index" u.index, the "asset" u.asset,
    the "value" u.value]

instance : Inspect Output where
  inspect o := .object [the "asset" o.asset, the "value" o.value, the "hash" o.recipient,
    the "address" o.recipient.address]

/-- What is signed, and the name that follows from it. -/
def inspectSigned (signedPart : Bytes) (id : Hash256) : String × Json :=
  ("signable", .object [the "unsigned" signedPart, the "tx_id" id])

instance : Inspect Transaction where
  inspect t := .object [the "version" t.version, the "nonce" t.nonce,
    the "valid_until_block" t.validUntilBlock, the "sender" t.sender,
    the "system_fee" (t.systemFee.map digits), the "network_fee" (t.networkFee.map digits),
    the "attributes" t.attributes, the "cosigners" t.cosigners, the "script" t.script,
    the "witnesses" t.witnesses, inspectSigned t.signedPart t.id]

instance : Inspect Invocation where
  inspect t := .object [the "version" t.version, the "script" t.script, the "gas" t.gas,
    the "attributes" t.attributes, the "inputs" t.inputs, the "outputs" t.outputs,
    the "witnesses" t.witnesses, inspectSigned t.signedPart t.id]

end LedgerClient.Ledger
