import LedgerClient.Bytes.Signed
import LedgerClient.Limits
import LedgerClient.Script.Error
import LedgerClient.Script.Opcode
import LedgerClient.Wire.Cursor

/-!
# Reading scripts

The counterparts of the pushes and of the service call. They accept every form of a push, also those
that are longer than needed.
-/

namespace LedgerClient.Script

open Wire (Decoder)

/-- Whether a byte opens a push of bytes that are not empty. -/
def isDataPush (b : UInt8) : Bool :=
  Opcode.isDirectPush b || b == Opcode.pushData1.byte || b == Opcode.pushData2.byte ||
    b == Opcode.pushData4.byte

/-- The number of bytes that the push at `offset` with the given first byte pushes. -/
def readPushLength (offset : Nat) (opcode : UInt8) : Decoder Nat :=
  if opcode = Opcode.push0.byte then pure 0
  else if Opcode.isDirectPush opcode then pure opcode.toNat
  else if opcode = Opcode.pushData1.byte then Decoder.number 1
  else if opcode = Opcode.pushData2.byte then Decoder.number 2
  else if opcode = Opcode.pushData4.byte then Decoder.number 4
  else Decoder.malformed offset (.dataPush opcode)

/-- Pushed bytes. -/
def readData : Decoder Bytes := do
  let offset ← Decoder.offset
  let length ← readPushLength offset (← Decoder.byte)
  if Limits.maxPushLength < length then
    Decoder.malformed offset (.pushLength length Limits.maxPushLength)
  else Decoder.take length

/-- The two's complement of a pushed number, as it was pushed. -/
def readSigned : Decoder Bytes := do
  let offset ← Decoder.offset
  let opcode ← Decoder.peek
  if opcode = Opcode.push0.byte then
    let _ ← Decoder.byte
    return []
  else if opcode = Opcode.pushM1.byte then
    let _ ← Decoder.byte
    return Bytes.ofInt (-1)
  else if 0x51 ≤ opcode ∧ opcode ≤ 0x60 then
    let _ ← Decoder.byte
    return Bytes.ofInt (opcode.toNat - 0x50)
  else if isDataPush opcode then readData
  else Decoder.malformed offset (.integerPush opcode)

/-- A pushed number. -/
def readInteger : Decoder Int := do
  return Bytes.toInt (← readSigned)

/-- A pushed text. -/
def readText : Decoder String := do
  let offset ← Decoder.offset
  match Bytes.toText? (← readData) with
  | some s => return s
  | none => Decoder.malformed offset .pushText

/-- The name of a called service. -/
def readSysCall : Decoder String := do
  let offset ← Decoder.offset
  let opcode ← Decoder.byte
  if opcode ≠ Opcode.sysCall.byte then Decoder.malformed offset (.serviceCall opcode)
  else
    let length ← Decoder.byte
    match Bytes.toText? (← Decoder.take length.toNat) with
    | some s => return s
    | none => Decoder.malformed offset .serviceName

end LedgerClient.Script
