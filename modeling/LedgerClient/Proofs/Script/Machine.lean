import LedgerClient.Script.Assembly

/-!
# The machine that runs scripts

A reference for what scripts mean, as far as they are assembled here: bytes are pushed, a number of
items is packed into an array, and a contract is called. Numbers lie on the stack as their two's
complement, like all other bytes. `Machine.fetch` reads the next instruction with its operand and
`Machine.run` follows the instructions up to the end of the script or up to a call; what a callee
does is its own matter, but the stack that it finds is part of how the run ends (`Machine.Halt`).
-/

namespace LedgerClient.Script

/-- What lies on the stack of a running script. -/
inductive Item where
  /-- Bytes, which may be meant as a number, a truth value, a text or a hash. -/
  | bytes (bs : Bytes)
  /-- Items in order. -/
  | array (items : List Item)

namespace Machine

/-- What an instruction does, with its operand. -/
inductive Instruction where
  /-- Puts bytes on the stack. -/
  | push (bs : Bytes)
  /-- Takes a number off the stack and as many items, and puts them back as an array. -/
  | pack
  /-- Calls the contract with this hash. -/
  | call (contract : Ledger.Hash160)

/-- How a run ends; the top of a stack comes first. -/
inductive Halt where
  /-- At the end of the script. -/
  | finished (stack : List Item)
  /-- At a call of a contract, before the bytes `code`. -/
  | called (contract : Ledger.Hash160) (stack : List Item) (code : Bytes)

/-- The push of the next `length` bytes. -/
def fetchPush (length : Nat) (code : Bytes) : Option (Instruction × Bytes) := do
  let (operand, rest) ← Bytes.splitAt? length code
  return (.push operand, rest)

/-- The push of as many bytes as the number of `width` bytes before them says. -/
def fetchCountedPush (width : Nat) (code : Bytes) : Option (Instruction × Bytes) := do
  let (length, rest) ← Bytes.splitAt? width code
  fetchPush (Bytes.toNat length) rest

/-- The call of the contract whose hash comes next. -/
def fetchCall (code : Bytes) : Option (Instruction × Bytes) :=
  match h : Bytes.splitAt? Limits.scriptHashSize code with
  | some (hash, rest) => some (.call ⟨hash, (Bytes.splitAt?_eq_some_iff.1 h).2⟩, rest)
  | none => none

/-- The next instruction and the bytes after it, unless the machine does not know it or its operand
is cut off. -/
def fetch : Bytes → Option (Instruction × Bytes)
  | [] => none
  | opcode :: rest =>
    match Opcode.ofByte? opcode with
    | some .push0 => fetchPush 0 rest
    | some .pushData1 => fetchCountedPush 1 rest
    | some .pushData2 => fetchCountedPush 2 rest
    | some .pushData4 => fetchCountedPush 4 rest
    | some .pushM1 => some (.push [0xff], rest)
    | some (.pushSmall less) => some (.push [UInt8.ofNat (less.val + 1)], rest)
    | some .pack => some (.pack, rest)
    | some .appCall => fetchCall rest
    | some _ => none
    | none => if Opcode.isDirectPush opcode then fetchPush opcode.toNat rest else none

/-- The stack after packing: the number on top says how many of the items below it become the array,
the first that is taken as its first. -/
def packed : List Item → Option (List Item)
  | .bytes count :: items =>
    let n := Bytes.toInt count
    if 0 ≤ n ∧ n ≤ items.length then
      some (.array (items.take n.toNat) :: items.drop n.toNat)
    else none
  | _ => none

/-! ## Instructions take bytes -/

/-- An instruction pushes the bytes behind it, if there are as many. -/
theorem fetchPush_eq_some_iff {length : Nat} {code rest : Bytes} {instruction : Instruction} :
    fetchPush length code = some (instruction, rest) ↔
      ∃ operand, instruction = .push operand ∧ operand.length = length ∧
        code = operand ++ rest := by
  rw [fetchPush]
  constructor
  · intro h
    cases hsplit : Bytes.splitAt? length code with
    | none => rw [hsplit] at h; cases h
    | some pieces =>
      rw [hsplit] at h
      cases h
      obtain ⟨hcode, hlength⟩ := Bytes.splitAt?_eq_some_iff.1 hsplit
      exact ⟨pieces.1, rfl, hlength, hcode⟩
  · rintro ⟨operand, rfl, hlength, rfl⟩
    rw [Bytes.splitAt?_eq_some_iff.2 ⟨rfl, hlength⟩]
    rfl

/-- It leaves no more than there was. -/
theorem length_fetchPush {length : Nat} {code rest : Bytes} {instruction : Instruction}
    (h : fetchPush length code = some (instruction, rest)) : rest.length ≤ code.length := by
  obtain ⟨operand, -, -, rfl⟩ := fetchPush_eq_some_iff.1 h
  simp

/-- Nor does one that is told the number of bytes. -/
theorem length_fetchCountedPush {width : Nat} {code rest : Bytes} {instruction : Instruction}
    (h : fetchCountedPush width code = some (instruction, rest)) : rest.length ≤ code.length := by
  rw [fetchCountedPush] at h
  cases hsplit : Bytes.splitAt? width code with
  | none => rw [hsplit] at h; cases h
  | some pieces =>
    rw [hsplit] at h
    have hrest := length_fetchPush h
    obtain ⟨rfl, -⟩ := Bytes.splitAt?_eq_some_iff.1 hsplit
    simp only [List.length_append]
    omega

/-- A call is of the contract with the hash behind it. -/
theorem fetchCall_eq_some_iff {code rest : Bytes} {instruction : Instruction} :
    fetchCall code = some (instruction, rest) ↔
      ∃ contract, instruction = .call contract ∧ code = contract.bytes ++ rest := by
  rw [fetchCall]
  constructor
  · intro h
    split at h
    · next hash rest' hsplit =>
      cases h
      exact ⟨_, rfl, (Bytes.splitAt?_eq_some_iff.1 hsplit).1⟩
    · cases h
  · rintro ⟨contract, rfl, rfl⟩
    have hsplit : Bytes.splitAt? Limits.scriptHashSize (contract.bytes ++ rest) =
        some (contract.bytes, rest) :=
      Bytes.splitAt?_eq_some_iff.2 ⟨rfl, contract.length_bytes⟩
    split
    · next heq =>
      cases heq.symm.trans hsplit
      rfl
    · next heq => cases heq.symm.trans hsplit

/-- The rest of a script after an instruction is shorter than the script. -/
theorem length_fetch {code rest : Bytes} {instruction : Instruction}
    (h : fetch code = some (instruction, rest)) : rest.length < code.length := by
  cases code with
  | nil => cases h
  | cons opcode code =>
    suffices hle : rest.length ≤ code.length from Nat.lt_succ_of_le hle
    rw [fetch] at h
    split at h
    · exact length_fetchPush h
    · exact length_fetchCountedPush h
    · exact length_fetchCountedPush h
    · exact length_fetchCountedPush h
    · cases h; exact Nat.le_refl _
    · cases h; exact Nat.le_refl _
    · cases h; exact Nat.le_refl _
    · obtain ⟨contract, -, rfl⟩ := fetchCall_eq_some_iff.1 h
      simp
    · cases h
    · split at h
      · exact length_fetchPush h
      · cases h

/-! ## Running -/

/-- How a script ends that is run on a stack, unless the machine meets what it cannot follow. -/
def run (code : Bytes) (stack : List Item) : Option Halt :=
  if code.isEmpty then some (.finished stack)
  else
    match _h : fetch code with
    | some (.push bs, rest) => run rest (.bytes bs :: stack)
    | some (.pack, rest) => (packed stack).bind (run rest)
    | some (.call contract, rest) => some (.called contract stack rest)
    | none => none
termination_by code.length
decreasing_by all_goals exact length_fetch ‹_›

@[simp] theorem run_nil (stack : List Item) : run [] stack = some (.finished stack) := by
  rw [run]
  rfl

section
variable {code rest : Bytes} (stack : List Item)

/-- A script that is not at its end is run by following its first instruction. -/
theorem run_cons (opcode : UInt8) (code : Bytes) :
    run (opcode :: code) stack =
      match fetch (opcode :: code) with
      | some (.push bs, rest) => run rest (.bytes bs :: stack)
      | some (.pack, rest) => (packed stack).bind (run rest)
      | some (.call contract, rest) => some (.called contract stack rest)
      | none => none := by
  rw [run, List.isEmpty_cons, if_neg Bool.false_ne_true]
  split <;> (next heq => rw [heq])

/-- A push puts its bytes on top of the stack. -/
theorem run_push {bs : Bytes} (h : fetch code = some (.push bs, rest)) :
    run code stack = run rest (.bytes bs :: stack) := by
  cases code with
  | nil => cases h
  | cons opcode code => rw [run_cons, h]

/-- Packing is followed if the stack can be packed. -/
theorem run_pack (h : fetch code = some (.pack, rest)) :
    run code stack = (packed stack).bind (run rest) := by
  cases code with
  | nil => cases h
  | cons opcode code => rw [run_cons, h]

/-- A call ends the script, whatever comes after it. -/
theorem run_call {contract : Ledger.Hash160} (h : fetch code = some (.call contract, rest)) :
    run code stack = some (.called contract stack rest) := by
  cases code with
  | nil => cases h
  | cons opcode code => rw [run_cons, h]

end

end Machine

end LedgerClient.Script
