import LedgerClient.Bytes.Basic

/-!
# Instructions

The instructions that scripts are assembled from. A byte from 1 to 75 pushes that many of the bytes
after it and has no name of its own; all others that occur are named here.
-/

namespace LedgerClient.Script

/-- The instructions with a name. -/
inductive Opcode where
  /-- Pushes no bytes, which is the number zero. -/
  | push0
  /-- Pushes bytes after one byte for their number. -/
  | pushData1
  /-- Pushes bytes after two bytes for their number. -/
  | pushData2
  /-- Pushes bytes after four bytes for their number. -/
  | pushData4
  /-- Pushes the number -1. -/
  | pushM1
  /-- Pushes a number from 1 to 16, here given less one. -/
  | pushSmall (less : Fin 16)
  /-- Does nothing. -/
  | nop
  /-- Calls the contract whose hash follows. -/
  | appCall
  /-- Calls the service whose name follows. -/
  | sysCall
  /-- Calls the contract whose hash follows and does not come back. -/
  | tailCall
  /-- Checks a signature. -/
  | checkSig
  /-- Checks several signatures. -/
  | checkMultiSig
  /-- Packs the items on the stack into an array. -/
  | pack
  deriving DecidableEq, Repr

namespace Opcode

/-- The byte of an instruction. -/
def byte : Opcode → UInt8
  | push0 => 0x00
  | pushData1 => 0x4c
  | pushData2 => 0x4d
  | pushData4 => 0x4e
  | pushM1 => 0x4f
  | pushSmall less => UInt8.ofNat (0x51 + less.val)
  | nop => 0x61
  | appCall => 0x67
  | sysCall => 0x68
  | tailCall => 0x69
  | checkSig => 0xac
  | checkMultiSig => 0xae
  | pack => 0xc1

/-- The instruction that pushes a number from 1 to 16. -/
def small? (n : Nat) : Option Opcode :=
  if h : n - 1 < 16 then if n = 0 then none else some (pushSmall ⟨n - 1, h⟩) else none

/-- The instruction that a byte stands for, if it has a name. -/
def ofByte? (b : UInt8) : Option Opcode :=
  if b = 0x00 then some push0
  else if b = 0x4c then some pushData1
  else if b = 0x4d then some pushData2
  else if b = 0x4e then some pushData4
  else if b = 0x4f then some pushM1
  else if 0x51 ≤ b ∧ b ≤ 0x60 then small? (b.toNat - 0x50)
  else if b = 0x61 then some nop
  else if b = 0x67 then some appCall
  else if b = 0x68 then some sysCall
  else if b = 0x69 then some tailCall
  else if b = 0xac then some checkSig
  else if b = 0xae then some checkMultiSig
  else if b = 0xc1 then some pack
  else none

/-- The name of an instruction. -/
def name : Opcode → String
  | push0 => "PUSH0"
  | pushData1 => "PUSHDATA1"
  | pushData2 => "PUSHDATA2"
  | pushData4 => "PUSHDATA4"
  | pushM1 => "PUSHM1"
  | pushSmall less => "PUSH" ++ toString (less.val + 1)
  | nop => "NOP"
  | appCall => "APPCALL"
  | sysCall => "SYSCALL"
  | tailCall => "TAILCALL"
  | checkSig => "CHECKSIG"
  | checkMultiSig => "CHECKMULTISIG"
  | pack => "PACK"

/-- The largest number of bytes that a byte without a name pushes. -/
def maxDirectPush : Nat := 75

/-- Whether a byte pushes as many of the bytes after it as it says. -/
def isDirectPush (b : UInt8) : Bool := 1 ≤ b.toNat && b.toNat ≤ maxDirectPush

/-- An instruction is found again by its byte. -/
theorem ofByte?_byte (op : Opcode) : ofByte? op.byte = some op := by
  cases op with
  | pushSmall less => revert less; decide
  | _ => decide

end Opcode

end LedgerClient.Script
