import LedgerClient.Proofs.Contract.Spelling
import LedgerClient.Proofs.Wire.Relocation
import Mathlib.Data.Int.Bitwise

/-!
# Capabilities that are read

The capabilities are the three lowest bits of the two's complement of a number
(`Capabilities.ofFlags_headD`), and no other bit of it shows in what is read after it. Two pushes
that agree in those bits may have unequal lengths, so that what follows them stands at different
places; but the readers of an entry point are the same at all places
(`EntryPoint.portable_afterCapabilities`), and so the results differ in the places only
(`EntryPoint.unknown_flags_change_nothing`).
-/

namespace LedgerClient

open Wire (Decoder DecoderOf Moved Placed Portable moved)
open scoped Power

/-! ## Readers of pushes at other places -/

namespace Script

variable {n : Nat}

/-- The length of a push is read at every place alike. -/
theorem moved_readPushLength (offset : Nat) (opcode : UInt8) :
    Moved n (readPushLength offset opcode) (readPushLength (offset + n) opcode) := by
  rw [readPushLength, readPushLength]
  split
  · exact .pure _
  split
  · exact .pure _
  split
  · exact Wire.moved_number 1
  split
  · exact Wire.moved_number 2
  split
  · exact Wire.moved_number 4
  · exact Wire.moved_malformed offset _

/-- So is the data of a push. -/
theorem moved_readData : Moved n readData readData := by
  refine .offset_bind fun offset => Wire.moved_byte.bind fun opcode =>
    (moved_readPushLength offset opcode).bind fun length => ?_
  split
  · exact Wire.moved_malformed offset _
  · exact Wire.moved_take length

/-- So are the bytes of a pushed number. -/
theorem moved_readSigned : Moved n readSigned readSigned := by
  refine .offset_bind fun offset => Wire.moved_peek.bind fun opcode => ?_
  split
  · exact Wire.moved_byte.map
  split
  · exact Wire.moved_byte.map
  split
  · exact Wire.moved_byte.map
  split
  · exact moved_readData
  · exact Wire.moved_malformed offset _

/-- So is its value. -/
theorem moved_readInteger : Moved n readInteger readInteger := moved_readSigned.map

/-- The bytes are a push of the number: they are read to their end as it. -/
def IsPushOf (n : Int) (push : Bytes) : Prop :=
  ∃ c, readInteger (.start push) = .ok n c ∧ c.rest = []

/-- The pushes of a number are the spellings of bytes that have it in two's complement. -/
theorem isPushOf_iff {n : Int} {push : Bytes} :
    IsPushOf n push ↔ ∃ signed, SpellsSigned signed push ∧ n = Bytes.toInt signed :=
  reads_readInteger.whole_iff

/-- What is written for a number is a push of it, if one instruction may push its bytes. -/
theorem isPushOf_pushInteger {n : Int} (h : (Bytes.ofInt n).length ≤ Limits.maxPushLength) :
    IsPushOf n (pushInteger n) :=
  isPushOf_iff.2 ⟨_, spellsSigned_pushInteger h, (Bytes.toInt_ofInt n).symm⟩

end Script

namespace Contract

/-! ## Capabilities of a number -/

namespace Capabilities

/-- The low bits of a number are those of what it leaves when divided by a power of two. -/
theorem testBit_toNat_emod {k width : Nat} (h : k < width) (n : Int) :
    (n % (2 ^ width : Nat)).toNat.testBit k = n.testBit k := by
  cases n with
  | ofNat m =>
    rw [Int.ofNat_eq_natCast, ← Int.natCast_emod, Int.toNat_natCast, Nat.testBit_mod_two_pow,
      decide_eq_true h, Bool.true_and]
    rfl
  | negSucc m =>
    have hpos : 0 < 2 ^ width := Nat.two_pow_pos width
    have hlt : m % 2 ^ width < 2 ^ width := Nat.mod_lt m hpos
    have hrest : (Int.negSucc m % (2 ^ width : Nat)).toNat = 2 ^ width - (m % 2 ^ width + 1) := by
      rw [Int.negSucc_emod m (Int.natCast_pos.2 hpos), ← Int.natCast_emod]
      omega
    rw [hrest, Nat.testBit_two_pow_sub_succ hlt, Nat.testBit_mod_two_pow, decide_eq_true h,
      Bool.true_and, Bool.true_and]
    rfl

/-- A byte has a bit in common with a mask of one bit if it has that bit. -/
theorem and_bne_zero {mask : UInt8} {k : Nat} (h : mask.toNat = 2 ^ k) (b : UInt8) :
    (b &&& mask != 0) = b.toNat.testBit k := by
  have hand : (b &&& mask).toNat = (b.toNat.testBit k).toNat * 2 ^ k := by
    rw [UInt8.toNat_and, h, Nat.and_two_pow]
  rw [Bool.eq_iff_iff, bne_iff_ne, ne_eq, ← UInt8.toNat_inj, hand]
  cases b.toNat.testBit k <;> simp

/-- The capabilities with a bit each in the two's complement of a number. -/
def ofBits (n : Int) : Capabilities := ⟨n.testBit 0, n.testBit 1, n.testBit 2⟩

/-- Only what a number leaves when divided by eight counts. -/
theorem ofBits_emod (n : Int) : ofBits (n % 8) = ofBits n := by
  have hbit : ∀ k < 3, (n % 8).testBit k = n.testBit k := by
    intro k hk
    rw [← testBit_toNat_emod hk n, ← testBit_toNat_emod hk (n % 8)]
    exact congrArg (fun m : Int => m.toNat.testBit k) (Int.emod_emod n 8)
  rw [ofBits, ofBits, hbit 0 (by decide), hbit 1 (by decide), hbit 2 (by decide)]

/-- The capabilities are told by the first of any bytes that spell the number. -/
theorem ofFlags_headD (signed : Bytes) : ofFlags (signed.headD 0) = ofBits (Bytes.toInt signed) := by
  have hbit : ∀ k < 8, (signed.headD 0).toNat.testBit k = (Bytes.toInt signed).testBit k := by
    intro k hk
    rw [← testBit_toNat_emod hk]
    exact congrArg (fun m : Int => m.toNat.testBit k) (Bytes.toInt_emod signed).symm
  rw [ofFlags, and_bne_zero (k := 0) rfl, and_bne_zero (k := 1) rfl, and_bne_zero (k := 2) rfl,
    hbit 0 (by decide), hbit 1 (by decide), hbit 2 (by decide)]
  rfl

end Capabilities

/-! ## Entry points at other places -/

/-- The error with `n` more bytes before its place. -/
def Error.moved (n : Nat) : Error → Error
  | .resultTag offset => .resultTag (offset + n)
  | .trailing offset => .trailing (offset + n)
  | .service offset name => .service (offset + n) name
  | .script (.wire e) => .script (.wire (e.moved n))
  | e => e

instance : Placed Error := ⟨Error.moved⟩

namespace EntryPoint

open Script (IsPushOf pushInteger)

variable {n : Nat}

/-- A reader of scripts does the same at all places within a reader of deployments. -/
theorem moved_ofWire {α : Type} {d d' : Decoder α} (h : Moved n d d') :
    Moved n (Decoder.mapError Error.ofWire d) (Decoder.mapError Error.ofWire d') :=
  h.mapError fun _ => rfl

/-- The kind of a tag does not depend on the place. -/
theorem moved_kindOfTag (tag : UInt8) : Moved n (kindOfTag tag) (kindOfTag tag) := by
  rw [kindOfTag]
  split
  · exact .pure _
  · exact .throw _

/-- The kind of the result is read at every place alike. -/
theorem moved_decodeResult : Moved n decodeResult decodeResult := by
  refine .offset_bind fun offset => (moved_ofWire Script.moved_readInteger).bind fun tag => ?_
  split
  · exact moved_kindOfTag _
  · exact .throw _

/-- Tags are refused with an error that names no place. -/
theorem kindsOfTags_avoids (tags : Bytes) :
    (kindsOfTags tags).Avoids fun e => Placed.moved n e ≠ e := by
  induction tags with
  | nil => exact Except.avoids_ok
  | cons tag tags ih =>
    rw [kindsOfTags, List.mapM_cons]
    refine .bind ?_ fun kind _ => .bind ih fun kinds _ => Except.avoids_ok
    split
    · exact Except.avoids_ok
    · exact Except.avoids_error fun h => h rfl

/-- So are the kinds of the arguments. -/
theorem moved_decodeParameters : Moved n decodeParameters decodeParameters := by
  refine (moved_ofWire Script.moved_readData).bind fun tags => ?_
  split
  · exact .pure _
  · next e h =>
    have hsame : Placed.moved n e = e := Decidable.not_not.1 (kindsOfTags_avoids tags e h)
    have hthrow := Moved.throw (n := n) (α := List Script.Kind) e
    rwa [hsame] at hthrow

/-- What is read of an entry point after its capabilities. -/
def afterCapabilities (capabilities : Capabilities) : DecoderOf Error EntryPoint := do
  let result ← decodeResult
  let parameters ← decodeParameters
  return ⟨parameters, result, capabilities⟩

/-- So is all that comes after the capabilities. -/
theorem portable_afterCapabilities (capabilities : Capabilities) :
    Portable (afterCapabilities capabilities) := fun _ =>
  moved_decodeResult.bind fun _ => moved_decodeParameters.map

/-- An entry point has the capabilities that were read before the rest of it. -/
theorem capabilities_of_afterCapabilities {capabilities : Capabilities} {c c' : Wire.Cursor}
    {p : EntryPoint} (h : afterCapabilities capabilities c = .ok p c') :
    p.capabilities = capabilities := by
  obtain ⟨result, _, -, h⟩ := Wire.exists_of_bind_eq_ok h
  obtain ⟨parameters, _, -, h⟩ := Wire.exists_of_bind_eq_ok h
  cases h
  rfl

/-- A number is read as the capabilities of its bits, and then comes the rest. -/
theorem decode_append {f : Int} {push : Bytes} (h : IsPushOf f push) (offset : Nat) (rest : Bytes) :
    decode ⟨offset, push ++ rest⟩ =
      moved (offset + push.length) (afterCapabilities (.ofBits f) (.start rest)) := by
  obtain ⟨signed, hspells, rfl⟩ := Script.isPushOf_iff.1 h
  have hread := (reads_decodeCapabilities.complete
    ⟨signed, hspells, Capabilities.ofFlags_headD signed⟩).read offset rest
  rw [← (portable_afterCapabilities _).eq_moved]
  exact Wire.bind_eq_of_ok hread

/-- Of the number that tells the capabilities only the three lowest bits count, whatever its size,
its sign and the form of its push. A push of it and a push of what it leaves when divided by eight
give one result, told from the places where they end: the same value or kind of error, and the same
bytes left. The capabilities of a value are the three bits, and every number that one instruction
may push has such a push. -/
theorem unknown_flags_change_nothing :
    (∀ f : Int, (Bytes.ofInt f).length ≤ Limits.maxPushLength → IsPushOf f (pushInteger f)) ∧
    ∀ (f : Int) (push push' : Bytes), IsPushOf f push → IsPushOf (f % 8) push' →
      ∀ (offset offset' : Nat) (rest : Bytes), ∃ r,
        decode ⟨offset, push ++ rest⟩ = moved (offset + push.length) r ∧
        decode ⟨offset', push' ++ rest⟩ = moved (offset' + push'.length) r ∧
        ∀ p c, r = .ok p c → p.capabilities = ⟨f.testBit 0, f.testBit 1, f.testBit 2⟩ := by
  refine ⟨fun _ => Script.isPushOf_pushInteger, ?_⟩
  intro f push push' h h' offset offset' rest
  have hsame := decode_append h' offset' rest
  rw [Capabilities.ofBits_emod] at hsame
  refine ⟨_, decode_append h offset rest, hsame, fun p c hp => ?_⟩
  exact capabilities_of_afterCapabilities hp

/-- Minus three in two bytes, one more than it needs, stands for five, and 65541 needs three. -/
theorem unknown_flags_change_nothing_sample :
    IsPushOf (-3) [0x02, 0xfd, 0xff] ∧ IsPushOf 5 [0x55] ∧ IsPushOf 65541 (pushInteger 65541) ∧
    ∃ r, decode ⟨0, [0x02, 0xfd, 0xff] ++ [0x51, 0x00]⟩ = moved 3 r ∧
      decode ⟨7, [0x55] ++ [0x51, 0x00]⟩ = moved 8 r ∧
      ∀ p c, r = .ok p c → p.capabilities = ⟨true, false, true⟩ := by
  obtain ⟨hwritten, hsame⟩ := unknown_flags_change_nothing
  have hpush : IsPushOf (-3) [0x02, 0xfd, 0xff] :=
    Script.isPushOf_iff.2 ⟨[0xfd, 0xff], .data (.mk [0x02] (by decide) (.direct (by decide))),
      by decide⟩
  have hpush' : IsPushOf 5 [0x55] := ⟨⟨1, []⟩, rfl, rfl⟩
  exact ⟨hpush, hpush', hwritten 65541 (by decide), hsame (-3) _ _ hpush hpush' 0 7 _⟩

end EntryPoint

end Contract

end LedgerClient
