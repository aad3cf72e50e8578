import LedgerClient.Bytes.Signed
import LedgerClient.Script.Error
import LedgerClient.Script.Opcode
import LedgerClient.Script.Parameter
import LedgerClient.Wire.Emission

/-!
# Assembling scripts

Every push takes the shortest form. Arguments are pushed last to first, so that the callee finds
them on the stack in the order in which it declares them; an array is pushed as its items, last to
first, their number, and an instruction that packs them.

Each operation is an `Emission`: when an item inside an argument cannot be pushed, the pushes made
before it stay.
-/

namespace LedgerClient.Script

open Wire (Emission)

/-- The instruction that pushes the bytes after it, for up to 2³² bytes. -/
def pushHead (length : Nat) : Bytes :=
  if length ≤ Opcode.maxDirectPush then [UInt8.ofNat length]
  else if length ≤ 0xff then Opcode.pushData1.byte :: Bytes.littleEndian 1 length
  else if length ≤ 0xffff then Opcode.pushData2.byte :: Bytes.littleEndian 2 length
  else Opcode.pushData4.byte :: Bytes.littleEndian 4 length

/-- A push of bytes, however many. -/
def rawPush (bs : Bytes) : Bytes := pushHead bs.length ++ bs

/-- A push of a whole number. -/
def pushInteger (n : Int) : Bytes :=
  if n = -1 then [Opcode.pushM1.byte]
  else if n = 0 then [Opcode.push0.byte]
  else
    match Opcode.small? n.toNat with
    | some op => [op.byte]
    | none => rawPush (Bytes.ofInt n)

/-- A push of a truth value. -/
def pushBoolean (b : Bool) : Bytes := if b then pushInteger 1 else pushInteger 0

/-- A push of bytes, if one instruction may push as many. -/
def pushData (bs : Bytes) : Except Error Bytes :=
  if Limits.maxPushLength < bs.length then .error (.pushTooLong bs.length) else .ok (rawPush bs)

/-- A push of the UTF-8 form of a text. -/
def pushText (s : String) : Except Error Bytes := pushData (Bytes.ofText s)

/-! ## Arguments and calls -/

mutual

/-- A push of an argument. -/
def pushParameter : Parameter → Emission Error
  | .signature bs => .ofExcept (pushData bs)
  | .boolean b => .ofBytes (pushBoolean b)
  | .integer n => .ofBytes (pushInteger n)
  | .hash160 h => .ofExcept (pushData h.bytes)
  | .hash256 h => .ofExcept (pushData h.bytes)
  | .byteArray bs => .ofExcept (pushData bs)
  | .publicKey bs => .ofExcept (pushData bs)
  | .string s => .ofExcept (pushText s)
  | .array items =>
    pushAllThen items (.ofBytes (pushInteger items.length ++ [Opcode.pack.byte]))

/-- Pushes of arguments, last to first, and then whatever comes after them. -/
def pushAllThen : List Parameter → Emission Error → Emission Error
  | [], next => next
  | p :: ps, next => pushAllThen ps ((pushParameter p).andThen next)

end

/-- A call of a contract with arguments. -/
def appCall (contract : Ledger.Hash160) (arguments : List Parameter) : Emission Error :=
  pushAllThen arguments (.ofBytes (Opcode.appCall.byte :: contract.bytes))

/-- A call of a service by its name. -/
def sysCall (name : String) : Except Error Bytes :=
  let bs := Bytes.ofText name
  if bs.isEmpty || maxServiceName < bs.length then .error (.serviceNameLength bs.length)
  else .ok (Opcode.sysCall.byte :: UInt8.ofNat bs.length :: bs)

end LedgerClient.Script
