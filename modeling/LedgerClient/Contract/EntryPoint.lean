import LedgerClient.Contract.Error
import LedgerClient.Script.Assembly
import LedgerClient.Script.Reading

/-!
# Entry points of contracts

A contract declares what arguments it takes, what it gives back, and which of three capabilities it
has. The capabilities travel as one number, a bit each; the kinds of the arguments are pushed as one
string of tags, so that the declaration is itself a script.

A reader takes the low byte of the two's complement of the number and looks at its three bits, so
that a number of any size and sign is accepted.
-/

namespace LedgerClient.Contract

open Script (Kind)
open Wire (Decoder DecoderOf Emission)

/-- What a contract may do beyond computing a result. -/
structure Capabilities where
  /-- It stores data. -/
  storage : Bool
  /-- It calls contracts that are only known when it runs. -/
  dynamicCalls : Bool
  /-- It can be paid. -/
  payable : Bool
  deriving DecidableEq, Repr, Inhabited

namespace Capabilities

/-- The byte with a bit for each capability. -/
def toFlags (c : Capabilities) : UInt8 :=
  (if c.storage then 1 else 0) ||| (if c.dynamicCalls then 2 else 0) |||
    (if c.payable then 4 else 0)

/-- The capabilities whose bits are set. -/
def ofFlags (flags : UInt8) : Capabilities :=
  ⟨flags &&& 1 != 0, flags &&& 2 != 0, flags &&& 4 != 0⟩

/-- The capabilities of a contract are read back from their flags. -/
theorem ofFlags_toFlags (c : Capabilities) : ofFlags c.toFlags = c := by
  obtain ⟨a, b, d⟩ := c
  cases a <;> cases b <;> cases d <;> decide

end Capabilities

/-- The declaration of a contract's entry point. -/
structure EntryPoint where
  parameters : List Kind
  result : Kind
  capabilities : Capabilities
  deriving DecidableEq, Repr, Inhabited

namespace EntryPoint

/-- The pushes that declare an entry point. -/
def emit (p : EntryPoint) : Emission Script.Error :=
  .andThen
    (.ofBytes (Script.pushInteger p.capabilities.toFlags.toNat ++
      Script.pushInteger p.result.tag.toNat))
    (.ofExcept (Script.pushData (p.parameters.map Kind.tag)))

/-- The declaration as a script of its own. -/
def encode (p : EntryPoint) : Except Error Bytes :=
  (p.emit.mapError .script).toExcept

/-- The kind with the given tag. -/
def kindOfTag (tag : UInt8) : DecoderOf Error Kind :=
  match Kind.ofTag? tag with
  | some kind => pure kind
  | none => throw (.unknownKind tag)

/-- The kinds with the given tags, up to the first that does not exist. -/
def kindsOfTags (tags : Bytes) : Except Error (List Kind) :=
  tags.mapM fun tag =>
    match Kind.ofTag? tag with
    | some kind => .ok kind
    | none => .error (.unknownKind tag)

/-- The next pushes, read as capabilities. -/
def decodeCapabilities : DecoderOf Error Capabilities := do
  let signed ← Decoder.mapError .ofWire Script.readSigned
  return .ofFlags (signed.headD 0)

/-- The next push, read as the kind of a result. -/
def decodeResult : DecoderOf Error Kind := do
  let offset ← Decoder.offset
  let tag ← Decoder.mapError .ofWire Script.readInteger
  if 0 ≤ tag ∧ tag < 256 then kindOfTag (UInt8.ofNat tag.toNat)
  else throw (.resultTag offset)

/-- The next push, read as the kinds of arguments. -/
def decodeParameters : DecoderOf Error (List Kind) := do
  let tags ← Decoder.mapError .ofWire Script.readData
  match kindsOfTags tags with
  | .ok kinds => return kinds
  | .error e => throw e

/-- The declaration made by the next pushes. -/
def decode : DecoderOf Error EntryPoint := do
  let capabilities ← decodeCapabilities
  let result ← decodeResult
  let parameters ← decodeParameters
  return ⟨parameters, result, capabilities⟩

/-- The value of a decoder that has to read a whole script. -/
def wholeScript {α : Type} (d : DecoderOf Error α) (script : Bytes) : Except Error α :=
  match EStateM.run d (.start script) with
  | .error e _ => .error e
  | .ok x c => if c.atEnd then .ok x else .error (.trailing c.offset)

/-- The declaration that a script makes. -/
def ofBytes (script : Bytes) : Except Error EntryPoint := wholeScript decode script

end EntryPoint

end LedgerClient.Contract
