import LedgerClient.Proofs.Script.Spelling
import Mathlib.Data.List.Basic

/-!
# The pieces of an assembled script

A script is assembled by operations one after another (`assemble`). Each of them writes pushes,
packs and calls in order (`Step.emit_eq`), and so the script is made of these (`writes_assemble`). A
push of bytes is read back at its place, since an operation that is asked to push too many fails.
Nothing fails for a number, however large: its push is written, and it is read back exactly if the
number fits as many bytes as one instruction may push (`pushes_are_read_back`). There are numbers
that do not (`push_beyond_limit`).
-/

namespace LedgerClient.Script

open Wire (Decides Decoder Emission)
open scoped Power

/-! ## Operations -/

/-- An operation that adds to a script. -/
inductive Step where
  | integer (n : Int)
  | data (bs : Bytes)
  | text (s : String)
  | parameter (p : Parameter)
  | call (contract : Ledger.Hash160) (arguments : List Parameter)

/-- What an operation adds, and whether it fails. -/
def Step.emit : Step → Emission Error
  | .integer n => .ofBytes (pushInteger n)
  | .data bs => .ofExcept (pushData bs)
  | .text s => .ofExcept (pushText s)
  | .parameter p => pushParameter p
  | .call contract arguments => appCall contract arguments

/-- What operations in turn write. -/
def assemble (steps : List Step) : Emission Error := .all (steps.map Step.emit)

/-! ## Pieces -/

/-- A part of a script that one instruction is, with its operand. -/
inductive Piece where
  /-- The push of a number. -/
  | number (n : Int)
  /-- The push of bytes. -/
  | data (bs : Bytes)
  | pack
  | call (contract : Ledger.Hash160)

namespace Piece

/-- The bytes of a piece. -/
def bytes : Piece → Bytes
  | number n => pushInteger n
  | data bs => rawPush bs
  | pack => [Opcode.pack.byte]
  | call contract => Opcode.appCall.byte :: contract.bytes

/-- Bytes that are pushed as they are, are few enough. -/
def Short : Piece → Prop
  | data bs => bs.length ≤ Limits.maxPushLength
  | _ => True

end Piece

mutual

/-- The pieces of the push of an argument. -/
def Parameter.pieces : Parameter → List Piece
  | .signature bs => [.data bs]
  | .boolean b => [.number (if b then 1 else 0)]
  | .integer n => [.number n]
  | .hash160 h => [.data h.bytes]
  | .hash256 h => [.data h.bytes]
  | .byteArray bs => [.data bs]
  | .publicKey bs => [.data bs]
  | .string s => [.data (Bytes.ofText s)]
  | .array items => Parameter.piecesOfAll items ++ [.number items.length, .pack]

/-- The pieces of the pushes of arguments, last to first. -/
def Parameter.piecesOfAll : List Parameter → List Piece
  | [] => []
  | p :: ps => Parameter.piecesOfAll ps ++ p.pieces

end

/-- The pieces that an operation writes. -/
def Step.pieces : Step → List Piece
  | .integer n => [.number n]
  | .data bs => [.data bs]
  | .text s => [.data (Bytes.ofText s)]
  | .parameter p => p.pieces
  | .call contract arguments => Parameter.piecesOfAll arguments ++ [.call contract]

/-! ## Scripts are made of pieces -/

namespace Piece

/-- The operation that writes a piece. It fails for bytes that are too many. -/
def emit : Piece → Emission Error
  | number n => .ofBytes (number n).bytes
  | data bs => .ofExcept (pushData bs)
  | pack => .ofBytes pack.bytes
  | call contract => .ofBytes (call contract).bytes

/-- Only bytes that are too many are refused. -/
theorem emit_failure_eq_none_iff {piece : Piece} : piece.emit.failure = none ↔ piece.Short := by
  cases piece with
  | number n => exact iff_of_true rfl trivial
  | data bs => exact pushData_failure_eq_none_iff
  | pack => exact iff_of_true rfl trivial
  | call contract => exact iff_of_true rfl trivial

/-- What is not refused is written as it is. -/
theorem emit_bytes {piece : Piece} (h : piece.Short) : piece.emit.bytes = piece.bytes := by
  cases piece with
  | number n => rfl
  | data bs => exact pushData_bytes h
  | pack => rfl
  | call contract => rfl

end Piece

-- By the recursion that pushing arguments and pushing one of them share.
mutual

/-- An argument is pushed piece by piece. -/
theorem pushParameter_eq : (p : Parameter) → pushParameter p = .all (p.pieces.map Piece.emit)
  | .signature _ | .byteArray _ | .publicKey _ | .hash160 _ | .hash256 _ | .string _ => by
    simp [pushParameter, Parameter.pieces, Piece.emit, pushText]
  | .boolean b => by
    cases b <;> simp [pushParameter, Parameter.pieces, Piece.emit, Piece.bytes, pushBoolean]
  | .integer _ => by
    simp [pushParameter, Parameter.pieces, Piece.emit, Piece.bytes]
  | .array items => by
    rw [pushParameter, Parameter.pieces]
    exact pushAllThen_eq items rfl

/-- Arguments are pushed piece by piece, and so is what comes after them. -/
theorem pushAllThen_eq : (ps : List Parameter) → {next : Emission Error} → {qs : List Piece} →
    next = .all (qs.map Piece.emit) →
    pushAllThen ps next = .all ((Parameter.piecesOfAll ps ++ qs).map Piece.emit)
  | [], _, _, h => by
    rw [pushAllThen, Parameter.piecesOfAll]
    exact h
  | p :: ps, next, qs, h => by
    rw [pushAllThen, Parameter.piecesOfAll, List.append_assoc]
    refine pushAllThen_eq ps ?_
    rw [pushParameter_eq p, h, List.map_append, Emission.all_append]

end

/-- An operation writes its pieces one after another. -/
theorem Step.emit_eq (step : Step) : step.emit = .all (step.pieces.map Piece.emit) := by
  cases step with
  | integer n => simp [emit, pieces, Piece.emit, Piece.bytes]
  | data bs => simp [emit, pieces, Piece.emit]
  | text s => simp [emit, pieces, Piece.emit, pushText]
  | parameter p => exact pushParameter_eq p
  | call contract arguments =>
    have hcall : Emission.ofBytes (Opcode.appCall.byte :: contract.bytes) =
        .all ([Piece.call contract].map Piece.emit) := by simp [Piece.emit, Piece.bytes]
    exact pushAllThen_eq arguments hcall

/-- Operations write all their pieces one after another. -/
theorem assemble_eq (steps : List Step) :
    assemble steps = .all ((steps.flatMap Step.pieces).map Piece.emit) := by
  unfold assemble
  induction steps with
  | nil => simp
  | cons step steps ih => simp [ih, step.emit_eq]

/-- Without failure an emission puts out these pieces, with no more bytes in any than may be
pushed. -/
structure Writes (e : Emission Error) (pieces : List Piece) : Prop where
  bytes : e.failure = none → e.bytes = pieces.flatMap Piece.bytes
  short : e.failure = none → ∀ piece ∈ pieces, piece.Short

/-- Pieces that are written one after another without failure are short, and nothing stands between
them. -/
theorem writes_all (pieces : List Piece) : Writes (.all (pieces.map Piece.emit)) pieces := by
  have hshort : (Emission.all (pieces.map Piece.emit)).failure = none →
      ∀ piece ∈ pieces, piece.Short := by
    intro h piece hpiece
    have hemit := Emission.all_failure_eq_none_iff.1 h _ (List.mem_map_of_mem hpiece)
    exact Piece.emit_failure_eq_none_iff.1 hemit
  refine ⟨fun h => ?_, hshort⟩
  rw [Emission.all_bytes (Emission.all_failure_eq_none_iff.1 h), List.flatMap_map]
  exact List.flatMap_congr fun piece hpiece => Piece.emit_bytes (hshort h piece hpiece)

/-- A script is made of the pieces of the operations that write it. -/
theorem writes_assemble (steps : List Step) :
    Writes (assemble steps) (steps.flatMap Step.pieces) := by
  rw [assemble_eq]
  exact writes_all _

/-! ## Reading pieces back -/

/-- No head is longer than five bytes. -/
theorem SpellsLength.length_le {length : Nat} {head : Bytes} (h : SpellsLength length head) :
    head.length ≤ 5 := by
  cases h with
  | direct => exact Nat.le_add_left 1 4
  | counted op width hop =>
    rw [List.length_cons, Bytes.length_littleEndian]
    obtain ⟨-, rfl⟩ | ⟨-, rfl⟩ | ⟨-, rfl⟩ := mem_countedPushes_iff.1 hop <;> decide

/-- A push that is read is a head and no more bytes than one instruction may push. -/
theorem SpellsSigned.length_le {signed push : Bytes} (h : SpellsSigned signed push) :
    push.length ≤ 5 + Limits.maxPushLength := by
  cases h with
  | minusOne => exact Nat.le_add_right_of_le (Nat.le_add_left 1 4)
  | small => exact Nat.le_add_right_of_le (Nat.le_add_left 1 4)
  | data hdata =>
    obtain ⟨head, hlength, hhead⟩ := hdata
    have := hhead.length_le
    rw [List.length_append]
    omega

/-- A number that does not fit is written all the same, behind the longest head. -/
theorem pushInteger_of_long {n : Int} (h : Limits.maxPushLength < (Bytes.ofInt n).length) :
    pushInteger n = (Opcode.pushData4.byte :: Bytes.littleEndian 4 (Bytes.ofInt n).length) ++
      Bytes.ofInt n := by
  have hmax : 0xffff < Limits.maxPushLength := by decide
  obtain ⟨rfl, -⟩ | ⟨rfl, -⟩ | ⟨less, rfl, -⟩ | hpush := pushInteger_cases n
  · exact absurd h (by decide)
  · exact absurd h (by decide)
  · revert less
    decide
  · rw [hpush, rawPush, pushHead, if_neg (by rw [Opcode.maxDirectPush]; omega), if_neg (by omega),
      if_neg (by omega)]

/-- Bytes are read back from their push, wherever it stands. -/
theorem readData_rawPush {bs : Bytes} (h : bs.length ≤ Limits.maxPushLength) (offset : Nat)
    (rest : Bytes) :
    readData ⟨offset, rawPush bs ++ rest⟩ = .ok bs ⟨offset + (rawPush bs).length, rest⟩ :=
  (reads_readData.complete (spellsData_rawPush h)).read offset rest

/-- A number is read back from its push, wherever that stands, exactly if its two's complement has
no more bytes than one instruction may push. -/
theorem readInteger_pushInteger_iff {n : Int} (offset : Nat) (rest : Bytes) :
    readInteger ⟨offset, pushInteger n ++ rest⟩ =
        .ok n ⟨offset + (pushInteger n).length, rest⟩ ↔
      Bytes.Fits Limits.maxPushLength n := by
  rw [← Bytes.signedWidth_le_iff, ← Bytes.length_ofInt]
  constructor
  · intro h
    obtain ⟨signed, c, hsigned, hrest⟩ := Wire.exists_of_bind_eq_ok h
    cases hrest
    obtain ⟨push, hpush, hspells⟩ := reads_readSigned.sound hsigned
    obtain rfl := List.append_cancel_right hpush
    -- What was read is as long as what was written, and that is too long to be read.
    refine Nat.le_of_not_lt fun hlong => ?_
    have hlength := hspells.length_le
    rw [pushInteger_of_long hlong, List.length_append, List.length_cons,
      Bytes.length_littleEndian] at hlength
    omega
  · intro h
    have hspells := spellsSigned_pushInteger h
    exact (reads_readInteger.complete ⟨_, hspells, (Bytes.toInt_ofInt n).symm⟩).read offset rest

namespace Piece

/-- What the piece pushes, one instruction may push. -/
def Allowed : Piece → Prop
  | number n => Bytes.Fits Limits.maxPushLength n
  | data bs => bs.length ≤ Limits.maxPushLength
  | pack => True
  | call _ => True

/-- What the piece pushes is read back at the given place, and nothing of what follows. -/
def ReadBackAt (offset : Nat) (rest : Bytes) : Piece → Prop
  | number n => readInteger ⟨offset, (number n).bytes ++ rest⟩ =
      .ok n ⟨offset + (number n).bytes.length, rest⟩
  | data bs => readData ⟨offset, (data bs).bytes ++ rest⟩ =
      .ok bs ⟨offset + (data bs).bytes.length, rest⟩
  | pack => True
  | call _ => True

/-- A piece that pushes no number too large is read back, and such a number is not. -/
theorem readBackAt_iff {piece : Piece} (h : piece.Short) (offset : Nat) (rest : Bytes) :
    piece.ReadBackAt offset rest ↔ piece.Allowed := by
  cases piece with
  | number n => exact readInteger_pushInteger_iff offset rest
  | data bs => exact iff_of_true (readData_rawPush h offset rest) h
  | pack => exact Iff.rfl
  | call contract => exact Iff.rfl

end Piece

/-- A script that is assembled without failure is made of pieces one after another. Each push is
read back at its place exactly if one instruction may push what it pushes; and that is so of all
pushes of bytes, and of those of numbers in range. -/
theorem pushes_are_read_back {steps : List Step} (h : (assemble steps).failure = none) :
    (assemble steps).bytes = (steps.flatMap Step.pieces).flatMap Piece.bytes ∧
    ∀ front piece back, steps.flatMap Step.pieces = front ++ piece :: back →
      (piece.ReadBackAt (front.flatMap Piece.bytes).length (back.flatMap Piece.bytes) ↔
        piece.Allowed) ∧
      ((∀ n, piece ≠ .number n) → piece.Allowed) := by
  have hwrites := writes_assemble steps
  refine ⟨hwrites.bytes h, ?_⟩
  intro front piece back hpieces
  have hshort := hwrites.short h piece (by simp [hpieces])
  refine ⟨Piece.readBackAt_iff hshort _ _, ?_⟩
  intro hnumber
  cases piece with
  | number n => exact absurd rfl (hnumber n)
  | data bs => exact hshort
  | pack => trivial
  | call contract => trivial

/-- Two numbers, the second in an array, with bytes between them. -/
def sampleSteps : List Step :=
  [.integer 300, .data [0x6e, 0x65, 0x6f], .parameter (.array [.integer (-129)])]

/-- The number in the array is read back at its place, seven bytes into the script. -/
theorem pushes_are_read_back_sample : (assemble sampleSteps).failure = none ∧
    (Piece.number (-129)).ReadBackAt 7 (pushInteger 1 ++ [Opcode.pack.byte]) := by
  have hassembled : (assemble sampleSteps).failure = none := by decide
  obtain ⟨-, hread⟩ := pushes_are_read_back hassembled
  obtain ⟨hplace, -⟩ := hread [.number 300, .data [0x6e, 0x65, 0x6f]] (.number (-129))
    [.number 1, .pack] rfl
  exact ⟨hassembled, hplace.2 (Bytes.signedWidth_le_iff.1 (by decide))⟩

/-! ## A push that is too long -/

/-- The longest head says its length to no avail if that is too long. -/
theorem exists_readInteger_eq_error {n : Int}
    (hlong : Limits.maxPushLength < (Bytes.ofInt n).length)
    (hlt : (Bytes.ofInt n).length < 2 ^ (32 : Nat)) (offset : Nat) (rest : Bytes) :
    ∃ e c, readInteger ⟨offset, pushInteger n ++ rest⟩ = .error e c := by
  have hhead : SpellsLength (Bytes.ofInt n).length
      (Opcode.pushData4.byte :: Bytes.littleEndian 4 (Bytes.ofInt n).length) :=
    .counted .pushData4 4 (by decide) hlt
  have hdata : Decides readData
      ([] ++ (Opcode.pushData4.byte :: Bytes.littleEndian 4 (Bytes.ofInt n).length ++ []))
      (True ∧ True ∧ False) fun _ => False := by
    rw [readData]
    refine Wire.decides_offset.bind fun place _ => ?_
    rw [← bind_assoc]
    refine ((reads_pushLength place).complete hhead).bind fun length hlength => ?_
    rw [hlength, if_pos hlong]
    exact .fail fun c => ⟨_, c, rfl⟩
  rw [List.nil_append, List.append_nil] at hdata
  obtain ⟨e, c, herror⟩ := (hdata offset (Bytes.ofInt n ++ rest)).2 fun h => h.2.2
  have hsigned : readSigned ⟨offset, pushInteger n ++ rest⟩ = .error e c := by
    rw [pushInteger_of_long hlong, List.append_assoc, ← herror, List.cons_append, readSigned_cons]
    rfl
  exact ⟨e, c, Wire.bind_eq_of_error hsigned⟩

/-- The number that so many nines spell. -/
def nines (digits : Nat) : Int := 10 ^ digits - 1

/-- Nines that are many enough spell a number that is too large for the given bytes. -/
theorem not_fits_nines {k width : Nat} (h : 8 * width < 93 * k) :
    ¬ Bytes.Fits width (nines (28 * k)) := by
  have hten : 2 ^ (93 * k) ≤ 10 ^ (28 * k) := by
    rw [Nat.pow_mul, Nat.pow_mul]
    exact Nat.pow_le_pow_left (by decide) k
  have hbytes : 256 ^ width * 2 ≤ 2 ^ (93 * k) := by
    have hbits : 256 ^ width = 2 ^ (8 * width) := (Nat.pow_mul 2 8 width).symm
    rw [hbits, ← Nat.pow_succ]
    exact Nat.pow_le_pow_right (by decide) h
  have hpos : 0 < 256 ^ width := Nat.pow_pos (by decide)
  have hcast : ((256 ^ width : Nat) : Int) = 256 ^ width := Int.natCast_pow 256 width
  have hcast' : ((10 ^ (28 * k) : Nat) : Int) = 10 ^ (28 * k) := Int.natCast_pow 10 (28 * k)
  rw [Bytes.Fits, nines, ← hcast, ← hcast']
  omega

/-- There is room for nines in more bytes than there are nines. -/
theorem fits_nines (k : Nat) : Bytes.Fits (k + 1) (nines k) := by
  have hten : 10 ^ k * 2 ≤ 256 ^ (k + 1) := by
    rw [Nat.pow_succ]
    exact Nat.mul_le_mul (Nat.pow_le_pow_left (by decide) k) (by decide)
  have hpos : 0 < 10 ^ k := Nat.pow_pos (by decide)
  have hcast : ((256 ^ (k + 1) : Nat) : Int) = 256 ^ (k + 1) := Int.natCast_pow 256 _
  have hcast' : ((10 ^ k : Nat) : Int) = 10 ^ k := Int.natCast_pow 10 k
  rw [Bytes.Fits, nines, ← hcast, ← hcast']
  omega

/-- The push of a number of 2525628 nines is written, though the number has more bytes than one
instruction may push, and it is not read back. -/
theorem push_beyond_limit :
    (assemble [.parameter (.integer (nines (28 * 90201)))]).failure = none ∧
    Limits.maxPushLength < (Bytes.ofInt (nines (28 * 90201))).length ∧
    ∀ n c, readInteger (.start (assemble [.parameter (.integer (nines (28 * 90201)))]).bytes) ≠
      .ok n c := by
  have hlong : Limits.maxPushLength < (Bytes.ofInt (nines (28 * 90201))).length := by
    rw [Bytes.length_ofInt, ← Nat.not_le, Bytes.signedWidth_le_iff]
    exact not_fits_nines (by decide)
  have hlt : (Bytes.ofInt (nines (28 * 90201))).length < 2 ^ (32 : Nat) := by
    rw [Bytes.length_ofInt]
    exact Nat.lt_of_le_of_lt (Bytes.signedWidth_le_iff.2 (fits_nines _)) (by decide)
  have hbytes : (assemble [.parameter (.integer (nines (28 * 90201)))]).bytes =
      pushInteger (nines (28 * 90201)) ++ [] :=
    (writes_assemble [.parameter (.integer (nines (28 * 90201)))]).bytes rfl
  obtain ⟨e, c, herror⟩ := exists_readInteger_eq_error hlong hlt 0 []
  refine ⟨rfl, hlong, fun n c' hok => ?_⟩
  rw [hbytes, Wire.Cursor.start, herror] at hok
  cases hok

end LedgerClient.Script
