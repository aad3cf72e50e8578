import LedgerClient.Proofs.Wire.Locality
import LedgerClient.Script.Reading

/-!
# Readers of scripts and the bytes that they leave

The readers of pushes and of service calls are local. That a number is told by a byte which is
looked at before it is taken makes no difference.
-/

namespace LedgerClient.Script

open Wire (Local)

/-- The number of pushed bytes is in the instruction or behind it. -/
theorem local_readPushLength (offset : Nat) (opcode : UInt8) :
    Local (readPushLength offset opcode) := by
  rw [readPushLength]
  split
  · exact .pure _
  split
  · exact .pure _
  split
  · exact Wire.local_number 1
  split
  · exact Wire.local_number 2
  split
  · exact Wire.local_number 4
  · exact Wire.local_malformed _ _

/-- Pushed bytes end where their number says, and are refused by that number only. -/
theorem local_readData : Local readData := by
  refine Wire.local_offset.bind fun offset => Wire.local_byte.bind fun opcode =>
    (local_readPushLength offset opcode).bind fun length => ?_
  split
  · exact Wire.local_malformed _ _
  · exact Wire.local_take length

/-- Which kind of push a number has depends on its first byte. -/
theorem local_readSigned : Local readSigned := by
  refine Wire.local_offset.bind fun offset => Wire.local_peek.bind fun opcode => ?_
  split
  · exact Wire.local_byte.map
  split
  · exact Wire.local_byte.map
  split
  · exact Wire.local_byte.map
  split
  · exact local_readData
  · exact Wire.local_malformed _ _

/-- The value of a number is made of the bytes that were read. -/
theorem local_readInteger : Local readInteger := local_readSigned.map

/-- Whether pushed bytes are a text depends on them alone. -/
theorem local_readText : Local readText := by
  refine Wire.local_offset.bind fun offset => local_readData.bind fun bs => ?_
  split
  · exact .pure _
  · exact Wire.local_malformed _ _

/-- The name of a service ends where the byte before it says. -/
theorem local_readSysCall : Local readSysCall := by
  refine Wire.local_offset.bind fun offset => Wire.local_byte.bind fun opcode => ?_
  split
  · exact Wire.local_malformed _ _
  refine Wire.local_byte.bind fun length => (Wire.local_take _).bind fun bs => ?_
  split
  · exact .pure _
  · exact Wire.local_malformed _ _

end LedgerClient.Script
