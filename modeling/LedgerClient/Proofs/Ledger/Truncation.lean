import LedgerClient.Ledger.WireForm
import LedgerClient.Proofs.Wire.Truncation

/-!
# Ledger values that end too early

The decoders of the ledger take their bytes one after another, so that no part of an encoding is
read as a transaction or an invocation (`incremental_transaction`, `incremental_invocation`).
-/

namespace LedgerClient.Ledger

open Wire (Incremental)

/-- A hash takes its bytes at once. -/
theorem incremental_digest {size : Nat} :
    Incremental .endOfInput (Digest.decode : Wire.Decoder (Digest size)) :=
  (Wire.incremental_takeSized size).bind fun ⟨_, _⟩ => .pure _

/-- The parts of an input are taken one after another. -/
theorem incremental_input : Incremental .endOfInput Input.decode :=
  incremental_digest.bind fun _ => (Wire.incremental_number 2).map

/-- So are those of an output. -/
theorem incremental_output : Incremental .endOfInput Output.decode := by
  refine incremental_digest.bind fun _ => (Wire.incremental_number Fixed8.size).bind fun word => ?_
  show Incremental _ (if h : 0 < (Fixed8.ofWord word).raw then _ else _)
  split
  · exact incremental_digest.map
  · exact .fail fun c => ⟨_, c, rfl⟩

/-- The data of an attribute is taken after its length. -/
theorem incremental_data (u : Usage) : Incremental .endOfInput (Attribute.decodeData u) := by
  rw [Attribute.decodeData]
  split
  · exact (Wire.incremental_takeSized _).bind fun ⟨_, _⟩ => .pure _
  · exact Wire.incremental_byte.bind fun _ =>
      (Wire.incremental_takeSized _).bind fun ⟨_, _⟩ => .pure _
  · exact (Wire.incremental_readCountedBounded _).bind fun ⟨_, _⟩ => .pure _

/-- An attribute is taken after the byte of its usage. -/
theorem incremental_attribute : Incremental .endOfInput Attribute.decode := by
  refine Wire.incremental_offset.bind fun _ => Wire.incremental_byte.bind fun tag => ?_
  split
  · exact .fail fun c => ⟨_, c, rfl⟩
  · exact (incremental_data _).bind fun ⟨_, _⟩ => .pure _

/-- The scripts of a witness are taken one after another. -/
theorem incremental_witness : Incremental .endOfInput Witness.decode :=
  (Wire.incremental_readCounted _).bind fun _ => (Wire.incremental_readCounted _).map

/-- So are the parts of a transaction. -/
theorem incremental_transaction : Incremental .endOfInput Transaction.decode :=
  Wire.incremental_byte.bind fun _ =>
    (Wire.incremental_readList incremental_attribute _).bind fun _ =>
      (Wire.incremental_readList incremental_witness _).map

/-- So are those of an invocation, of whatever version. -/
theorem incremental_invocation : Incremental .endOfInput Invocation.decode := by
  rw [Invocation.decode]
  refine Wire.incremental_offset.bind fun _ => Wire.incremental_byte.bind fun tag => ?_
  split
  · exact .fail fun c => ⟨_, c, rfl⟩
  refine Wire.incremental_byte.bind fun version => (Wire.incremental_readCounted _).bind fun _ => ?_
  show Incremental _ (if Invocation.carriesGas version then _ else _)
  -- The lists after the gas are read alike whether there was any.
  split <;> refine Incremental.bind ?_ fun _ =>
    (Wire.incremental_readList incremental_attribute _).bind fun _ =>
      (Wire.incremental_readList incremental_input _).bind fun _ =>
        (Wire.incremental_readList incremental_output _).bind fun _ =>
          (Wire.incremental_readList incremental_witness _).map
  · rw [← bind_pure_comp]
    exact (Wire.incremental_number Fixed8.size).map
  · exact .pure _

end LedgerClient.Ledger
