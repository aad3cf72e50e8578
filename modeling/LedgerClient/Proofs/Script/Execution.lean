import LedgerClient.Proofs.Bytes.Signed
import LedgerClient.Proofs.Script.Machine
import LedgerClient.Proofs.Script.Pushable

/-!
# What assembled scripts do

The scripts of arguments and calls are run on the machine. Each push that is assembled is read back
as one instruction whose operand is the pushed bytes, whichever of the forms it took
(`fetch_rawPush`, `fetch_pushInteger`). So an argument leaves its value on the stack
(`run_pushParameter`), and arguments that are pushed last to first lie there first to last
(`run_pushAllThen`), in an array as well as under a call (`arguments_reach_callee`).
-/

namespace LedgerClient.Script

open Machine
open Wire (Emission)
open scoped Power

/-! ## Values of arguments -/

namespace Parameter

mutual

/-- What an argument is to a contract: bytes, or an array in the order in which it was given. -/
def value : Parameter → Item
  | .signature bs => .bytes bs
  | .boolean b => .bytes (if b then [1] else [])
  | .integer n => .bytes (Bytes.ofInt n)
  | .hash160 h => .bytes h.bytes
  | .hash256 h => .bytes h.bytes
  | .byteArray bs => .bytes bs
  | .publicKey bs => .bytes bs
  | .string s => .bytes (Bytes.ofText s)
  | .array items => .array (values items)

/-- What arguments are to a contract, in the same order. -/
def values : List Parameter → List Item
  | [] => []
  | p :: ps => p.value :: values ps

end

/-- The values of arguments are taken one by one. -/
theorem values_eq_map (ps : List Parameter) : values ps = ps.map value := by
  induction ps with
  | nil => rfl
  | cons p ps ih => rw [values, ih, List.map_cons]

/-- The number that is pushed for an argument: its own, or that of its items. -/
def number : Parameter → Int
  | .integer n => n
  | .array items => items.length
  | _ => 0

/-- No number that is pushed for the argument, or for what stands in it, has more bytes than one
instruction pushes. The number of an array's items never does, short of 2 ^ 8388607 items. -/
def Numbered (p : Parameter) : Prop :=
  ∀ q : Parameter, q.Within p → (Bytes.ofInt q.number).length ≤ Limits.maxPushLength

/-- An array may be pushed if the number of its items and all that stands in it may be. -/
theorem numbered_array_iff {items : List Parameter} :
    (Parameter.array items).Numbered ↔
      (Bytes.ofInt items.length).length ≤ Limits.maxPushLength ∧ ∀ p ∈ items, p.Numbered :=
  forall_within_array_iff

/-- Of any other argument only its own number counts. -/
theorem numbered_iff {p : Parameter} (h : ∀ items, p ≠ .array items) :
    p.Numbered ↔ (Bytes.ofInt p.number).length ≤ Limits.maxPushLength :=
  forall_within_iff h

/-- So a number that is pushed has a length of four bytes. -/
theorem Numbered.length_lt {p : Parameter} (h : p.Numbered) :
    (Bytes.ofInt p.number).length < 2 ^ (32 : Nat) :=
  Nat.lt_of_le_of_lt (h p .self) (by decide)

end Parameter

open Parameter

/-! ## Pushes are read back -/

/-- Bytes from 1 to 75 have no name. -/
theorem ofByte?_directPush {n : Nat} (hpos : n ≠ 0) (hle : n ≤ Opcode.maxDirectPush) :
    Opcode.ofByte? (UInt8.ofNat n) = none ∧ Opcode.isDirectPush (UInt8.ofNat n) = true := by
  have hall : ∀ k : Fin 75, Opcode.ofByte? (UInt8.ofNat (k.val + 1)) = none ∧
      Opcode.isDirectPush (UInt8.ofNat (k.val + 1)) = true := by decide
  have hk := hall ⟨n - 1, by rw [Opcode.maxDirectPush] at hle; omega⟩
  rwa [Nat.sub_add_cancel (Nat.one_le_iff_ne_zero.2 hpos)] at hk

/-- An instruction with so many bytes behind it pushes them. -/
theorem fetchPush_append (bs code : Bytes) :
    fetchPush bs.length (bs ++ code) = some (.push bs, code) :=
  fetchPush_eq_some_iff.2 ⟨bs, rfl, rfl, rfl⟩

/-- So does one with the number of bytes in between. -/
theorem fetchCountedPush_append (width : Nat) {bs : Bytes} (h : bs.length < 256 ^ width)
    (code : Bytes) :
    fetchCountedPush width (Bytes.littleEndian width bs.length ++ (bs ++ code)) =
      some (.push bs, code) := by
  have hsplit := Bytes.splitAt?_eq_some_iff.2
    ⟨rfl (a := Bytes.littleEndian width bs.length ++ (bs ++ code)),
      Bytes.length_littleEndian width bs.length⟩
  rw [fetchCountedPush, hsplit]
  show fetchPush (Bytes.toNat (Bytes.littleEndian width bs.length)) (bs ++ code) = _
  rw [Bytes.toNat_littleEndian h, fetchPush_append]

/-- A push of bytes is read back as one instruction, whichever form their number takes. -/
theorem fetch_rawPush {bs : Bytes} (h : bs.length < 2 ^ (32 : Nat)) (code : Bytes) :
    fetch (rawPush bs ++ code) = some (.push bs, code) := by
  rw [rawPush, pushHead]
  split
  · next hdirect =>
    by_cases hempty : bs.length = 0
    · obtain rfl := List.length_eq_zero_iff.1 hempty
      exact fetchPush_append [] code
    · obtain ⟨hname, hpush⟩ := ofByte?_directPush hempty hdirect
      have hlength : (UInt8.ofNat bs.length).toNat = bs.length := by
        rw [Opcode.maxDirectPush] at hdirect
        rw [UInt8.toNat_ofNat']
        omega
      show fetch (UInt8.ofNat bs.length :: (bs ++ code)) = _
      rw [fetch, hname, hpush, hlength]
      exact fetchPush_append bs code
  split
  · rw [List.append_assoc]
    exact fetchCountedPush_append 1 (by omega) code
  split
  · rw [List.append_assoc]
    exact fetchCountedPush_append 2 (by omega) code
  · rw [List.append_assoc]
    exact fetchCountedPush_append 4 (by omega) code

/-- What is written as a push of bytes is read back as one. -/
theorem fetch_of_pushData {bs push : Bytes} (h : pushData bs = .ok push) (code : Bytes) :
    fetch (push ++ code) = some (.push bs, code) := by
  obtain ⟨hlength, rfl⟩ := pushData_eq_ok_iff.1 h
  have hmax : Limits.maxPushLength < 2 ^ (32 : Nat) := by decide
  exact fetch_rawPush (by omega) code

/-- A push of a number is read back as a push of its two's complement, though small numbers are
pushed without an operand. -/
theorem fetch_pushInteger {n : Int} (h : (Bytes.ofInt n).length < 2 ^ (32 : Nat)) (code : Bytes) :
    fetch (pushInteger n ++ code) = some (.push (Bytes.ofInt n), code) := by
  obtain ⟨rfl, hpush⟩ | ⟨rfl, hpush⟩ | ⟨less, rfl, hpush⟩ | hpush := pushInteger_cases n
  · rw [hpush]
    rfl
  · rw [hpush]
    exact fetchPush_append [] code
  · have hvalue : ∀ k : Fin 16, Bytes.ofInt (k.val + 1) = [UInt8.ofNat (k.val + 1)] := by decide
    rw [hpush, hvalue, List.singleton_append, fetch, Opcode.ofByte?_byte]
  · rw [hpush]
    exact fetch_rawPush h code

/-- A truth value is read back as a push of one byte or none. -/
theorem fetch_pushBoolean (b : Bool) (code : Bytes) :
    fetch (pushBoolean b ++ code) = some (.push (if b then [1] else []), code) := by
  cases b with
  | false => exact fetch_pushInteger (n := 0) (by decide) code
  | true => exact fetch_pushInteger (n := 1) (by decide) code

/-- The instruction that packs an array is read back. -/
theorem fetch_pack (code : Bytes) : fetch (Opcode.pack.byte :: code) = some (.pack, code) := rfl

/-- So is the call of a contract. -/
theorem fetch_appCall (contract : Ledger.Hash160) (code : Bytes) :
    fetch (Opcode.appCall.byte :: (contract.bytes ++ code)) = some (.call contract, code) := by
  rw [fetch, Opcode.ofByte?_byte]
  exact fetchCall_eq_some_iff.2 ⟨contract, rfl, rfl⟩

/-- Packing takes the number off the stack and as many items. -/
theorem packed_append (items stack : List Item) :
    packed (.bytes (Bytes.ofInt items.length) :: (items ++ stack)) =
      some (.array items :: stack) := by
  have hcount : (items.length : Int) ≤ (items ++ stack).length := by
    rw [List.length_append]
    omega
  rw [packed, Bytes.toInt_ofInt, if_pos ⟨Int.natCast_nonneg _, hcount⟩, Int.toNat_natCast,
    List.take_left, List.drop_left]

/-! ## Arguments leave their values -/

/-- A push of bytes puts them on top of the stack, and the script goes on. -/
theorem run_rawPush {bs : Bytes} (h : (Emission.ofExcept (pushData bs)).failure = none)
    (code : Bytes) (stack : List Item) :
    run ((Emission.ofExcept (pushData bs)).bytes ++ code) stack =
      run code (.bytes bs :: stack) := by
  cases hpush : pushData bs with
  | error e =>
    rw [hpush] at h
    cases h
  | ok push => exact run_push stack (fetch_of_pushData hpush code)

-- The recursion is that of the two functions: arguments are pushed by pushing each of them, and
-- the items of an array are pushed as arguments. The code that follows is arbitrary, since the
-- pushes of the arguments before stand there.
mutual

/-- The push of an argument leaves its value on the stack. -/
theorem run_pushParameter : (p : Parameter) → p.Numbered → (pushParameter p).failure = none →
    ∀ code stack, run ((pushParameter p).bytes ++ code) stack = run code (p.value :: stack)
  | .signature _, _, h, code, stack | .byteArray _, _, h, code, stack
  | .publicKey _, _, h, code, stack | .string _, _, h, code, stack
  | .hash160 _, _, h, code, stack | .hash256 _, _, h, code, stack => by
    rw [pushParameter] at h ⊢
    exact run_rawPush h code stack
  | .boolean b, _, _, code, stack => by
    rw [pushParameter]
    exact run_push stack (fetch_pushBoolean b code)
  | .integer _, hn, _, code, stack => by
    rw [pushParameter]
    exact run_push stack (fetch_pushInteger hn.length_lt code)
  | .array items, hn, h, code, stack => by
    rw [pushParameter] at h ⊢
    have hcount : (Bytes.ofInt items.length).length < 2 ^ (32 : Nat) := hn.length_lt
    have hlength : (values items).length = items.length := by
      rw [values_eq_map, List.length_map]
    rw [run_pushAllThen items (numbered_array_iff.1 hn).2 _ h]
    show run (pushInteger items.length ++ [Opcode.pack.byte] ++ code) _ = _
    rw [List.append_assoc, run_push _ (fetch_pushInteger hcount _)]
    show run (Opcode.pack.byte :: code) _ = _
    rw [run_pack _ (fetch_pack code), ← hlength, packed_append, Option.bind_some, value]

/-- The pushes of arguments leave the value of the first on top. -/
theorem run_pushAllThen : (ps : List Parameter) → (∀ p ∈ ps, p.Numbered) →
    (next : Emission Error) → (pushAllThen ps next).failure = none →
    ∀ code stack, run ((pushAllThen ps next).bytes ++ code) stack =
      run (next.bytes ++ code) (values ps ++ stack)
  | [], _, _, _, _, _ => rfl
  | p :: ps, hn, next, h, code, stack => by
    rw [pushAllThen] at h ⊢
    obtain ⟨hp, -⟩ := Emission.andThen_failure_eq_none_iff.1
      ((pushAllThen_failure_eq_none_iff ps).1 h).2
    rw [run_pushAllThen ps (fun q hq => hn q (.tail _ hq)) _ h, Emission.andThen_bytes hp,
      List.append_assoc, run_pushParameter p (hn p (.head _)) hp, values, List.cons_append]

end

/-- An argument is pushed by a script that leaves its value on top of any stack, where the value of
a number is its shortest two's complement; and a call is a script that leaves the values of its
arguments on top of any stack, the first argument uppermost, and ends with the call. -/
theorem arguments_reach_callee :
    (∀ n : Int, ∃ bs, (Parameter.integer n).value = .bytes bs ∧ Bytes.toInt bs = n ∧
      ∀ bs', Bytes.toInt bs' = n → bs.length ≤ bs'.length) ∧
    (∀ (p : Parameter) (script : Bytes) (stack : List Item), p.Numbered →
      (pushParameter p).toExcept = .ok script →
      run script stack = some (.finished (p.value :: stack))) ∧
    (∀ (contract : Ledger.Hash160) (arguments : List Parameter) (script : Bytes)
      (stack : List Item), (∀ p ∈ arguments, p.Numbered) →
      (appCall contract arguments).toExcept = .ok script →
      run script stack = some (.called contract (arguments.map value ++ stack) [])) := by
  refine ⟨fun n => ⟨_, rfl, Bytes.ofInt_shortest n⟩, ?_, ?_⟩
  · intro p script stack hn h
    obtain ⟨hnone, rfl⟩ := Emission.toExcept_eq_ok_iff.1 h
    have hrun := run_pushParameter p hn hnone [] stack
    rwa [List.append_nil, run_nil] at hrun
  · intro contract arguments script stack hn h
    obtain ⟨hnone, rfl⟩ := Emission.toExcept_eq_ok_iff.1 h
    have hrun := run_pushAllThen arguments hn _ hnone [] stack
    rw [List.append_nil] at hrun
    rw [appCall, hrun, values_eq_map]
    exact run_call _ (fetch_appCall contract [])

/-- Arguments with an empty array and a number of two bytes in an array. -/
def sampleArguments : List Parameter :=
  [.boolean true, .array [.byteArray [0x6e, 0x65, 0x6f], .array [], .integer (-129)]]

/-- The arguments with the empty array reach a contract, the first argument uppermost. -/
theorem arguments_reach_callee_sample : (∀ p ∈ sampleArguments, p.Numbered) ∧
    ∃ script, (appCall .zero sampleArguments).toExcept = .ok script ∧
      run script [] = some (.called .zero [.bytes [1],
        .array [.bytes [0x6e, 0x65, 0x6f], .array [], .bytes [0x7f, 0xff]]] []) := by
  have hflag : (Parameter.boolean true).Numbered := (numbered_iff (by nofun)).2 (by decide)
  have hname : (Parameter.byteArray [0x6e, 0x65, 0x6f]).Numbered :=
    (numbered_iff (by nofun)).2 (by decide)
  have hnone : (Parameter.array []).Numbered :=
    numbered_array_iff.2 ⟨by decide, List.forall_mem_nil _⟩
  have hlow : (Parameter.integer (-129)).Numbered := (numbered_iff (by nofun)).2 (by decide)
  have hn : ∀ p ∈ sampleArguments, p.Numbered := by
    simp only [sampleArguments, List.forall_mem_cons]
    refine ⟨hflag, numbered_array_iff.2 ⟨by decide, ?_⟩, List.forall_mem_nil _⟩
    simp only [List.forall_mem_cons]
    exact ⟨hname, hnone, hlow, List.forall_mem_nil _⟩
  exact ⟨hn, _, rfl, arguments_reach_callee.2.2 .zero sampleArguments _ [] hn rfl⟩

end LedgerClient.Script
