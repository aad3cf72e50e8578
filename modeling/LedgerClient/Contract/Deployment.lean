import LedgerClient.Contract.Description
import LedgerClient.Contract.EntryPoint

/-!
# Deployments

A contract is put on the ledger by a script that pushes its description, the declaration of its
entry point and its own script, and then calls the service that creates contracts. The contract is
known by the hash of its own script, whose length the type keeps within limits.
-/

namespace LedgerClient.Contract

open Wire (Decoder DecoderOf Emission)

/-- A contract with what is needed to put it on the ledger. -/
structure Deployment where
  script : Bytes
  entryPoint : EntryPoint
  description : Description
  length_pos : 0 < script.length
  length_le : script.length ≤ Limits.maxScriptLength
  deriving DecidableEq

namespace Deployment

/-- The deployment of a script. -/
def ofScript (script : Bytes) (entryPoint : EntryPoint) (description : Description) :
    Except Error Deployment :=
  if hp : 0 < script.length then
    if hl : script.length ≤ Limits.maxScriptLength then
      .ok ⟨script, entryPoint, description, hp, hl⟩
    else .error (.scriptLength script.length)
  else .error .noScript

/-- The hash by which the contract is known. -/
def contractHash (d : Deployment) : Ledger.Hash160 := Ledger.Hash160.ofScript d.script

/-- The instructions that deploy the contract. -/
def emit (d : Deployment) : Emission Script.Error :=
  .all [d.description.emit, d.entryPoint.emit, .ofExcept (Script.pushData d.script),
    .ofExcept (Script.sysCall createService)]

/-- The script that deploys the contract. -/
def encode (d : Deployment) : Except Error Bytes :=
  (d.emit.mapError .script).toExcept

/-- The hash of the script that deploys the contract. -/
def deploymentHash (d : Deployment) : Except Error Ledger.Hash160 := do
  return Ledger.Hash160.ofScript (← d.encode)

/-- The next call, which has to create a contract. -/
def decodeCall : DecoderOf Error Unit := do
  let offset ← Decoder.offset
  let name ← Decoder.mapError .ofWire Script.readSysCall
  if name ≠ createService then throw (.service offset name)

/-- What the next instructions deploy. -/
def decode : DecoderOf Error (Bytes × EntryPoint × Description) := do
  let description ← Description.decode
  let entryPoint ← EntryPoint.decode
  let script ← Decoder.mapError .ofWire Script.readData
  decodeCall
  return (script, entryPoint, description)

/-- The deployment that a script makes. -/
def ofBytes (bytes : Bytes) : Except Error Deployment := do
  let (script, entryPoint, description) ← EntryPoint.wholeScript decode bytes
  ofScript script entryPoint description

end Deployment

end LedgerClient.Contract
