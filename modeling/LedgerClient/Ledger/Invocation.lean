import LedgerClient.Ledger.Output
import LedgerClient.Ledger.Transaction

/-!
# Invocations

An invocation is a transaction that runs a script, pays for it, and may move assets: it spends
inputs and makes outputs. Its bytes are a tag, the version, the script, from version 1 on the fee
paid to the script, then attributes, inputs and outputs; that much is signed. The witnesses follow.
-/

namespace LedgerClient.Ledger

/-- A transaction that runs a script. -/
structure Invocation where
  version : UInt8
  script : Bytes
  /-- What is paid for running the script. -/
  gas : Fixed8
  attributes : List Attribute
  inputs : List Input
  outputs : List Output
  witnesses : List Witness
  deriving DecidableEq

namespace Invocation

/-- The invocation from which new ones are built. -/
def new : Invocation := ⟨Limits.transactionVersion, [], .zero, [], [], [], []⟩

/-! ## Building -/

/-- The invocation with attributes added. -/
def withAttributes (t : Invocation) (more : List Attribute) : Except Error Invocation := do
  return { t with attributes := ← addAttributes t.attributes more }

/-- The invocation with inputs added. -/
def withInputs (t : Invocation) (more : List Input) : Invocation :=
  { t with inputs := t.inputs ++ more }

/-- The invocation with outputs added. -/
def withOutputs (t : Invocation) (more : List Output) : Invocation :=
  { t with outputs := t.outputs ++ more }

/-- The invocation with witnesses added, in order. -/
def addWitnesses (t : Invocation) (batch : List Witness) : Except Error Invocation := do
  return { t with witnesses := ← Witness.insert t.witnesses batch }

/-- The invocation, finished; it needs a script. -/
def finish (t : Invocation) : Except Error Invocation :=
  if t.script.isEmpty then .error .noScript else .ok t

/-! ## On the wire -/

/-- Whether invocations of a version say what they pay. -/
def carriesGas (version : UInt8) : Bool := 1 ≤ version

/-- The part that is signed. -/
def signedPart (t : Invocation) : Bytes :=
  Limits.invocationTag :: t.version :: (Wire.Counted.write t.script ++
    ((if carriesGas t.version then t.gas.encode else []) ++
      (Wire.Counted.writeList Attribute.encode t.attributes ++
        (Wire.Counted.writeList Input.encode t.inputs ++
          Wire.Counted.writeList Output.encode t.outputs))))

/-- The name of the invocation. -/
def id (t : Invocation) : Hash256 := Hash256.ofContent t.signedPart

/-- The bytes of an invocation. -/
def encode (t : Invocation) : Bytes :=
  t.signedPart ++ Wire.Counted.writeList Witness.encode t.witnesses

/-- The number of bytes of an invocation. -/
def encodedSize (t : Invocation) : Nat :=
  2 + Wire.Counted.size t.script +
    (if carriesGas t.version then Fixed8.size else 0) +
    Wire.Counted.listSize Attribute.encodedSize t.attributes +
    Wire.Counted.listSize Input.encodedSize t.inputs +
    Wire.Counted.listSize Output.encodedSize t.outputs +
    Wire.Counted.listSize Witness.encodedSize t.witnesses

/-- The invocation of the next bytes. -/
def decode : Wire.Decoder Invocation := do
  let offset ← Wire.Decoder.offset
  let tag ← Wire.Decoder.byte
  if tag ≠ Limits.invocationTag then
    Wire.Decoder.malformed offset (.transactionKind tag)
  else
    let version ← Wire.Decoder.byte
    let script ← Wire.Counted.read Limits.maxScriptLength
    let gas ←
      if carriesGas version then Fixed8.ofWord <$> Wire.Decoder.number Fixed8.size
      else pure .zero
    let attributes ← Wire.Counted.readList Attribute.decode Limits.maxAttributes
    let inputs ← Wire.Counted.readList Input.decode Limits.maxTransactionItems
    let outputs ← Wire.Counted.readList Output.decode Limits.maxTransactionItems
    let witnesses ← Wire.Counted.readList Witness.decode Limits.maxTransactionItems
    return ⟨version, script, gas, attributes, inputs, outputs, witnesses⟩

end Invocation

end LedgerClient.Ledger
