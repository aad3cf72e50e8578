import LedgerClient.Number.Power

/-!
# Bytes and the numbers they spell

Everything that is hashed, signed or sent is a list of bytes, first byte first. Numbers stand in
such lists little-endian: `Bytes.littleEndian` writes the low bytes of a number at a fixed width,
`Bytes.toNat` reads a list of any length back, and the two are inverse wherever the number fits
(`toNat_littleEndian`, `littleEndian_toNat`). `Bytes.splitAt?` is the one way of cutting bytes off
the front of a list: it gives the two pieces, or nothing when too few bytes are there.
-/

namespace LedgerClient

open scoped Power

/-- The bytes of a message, script or hash, first byte first. -/
abbrev Bytes := List UInt8

namespace Bytes

/-- The `width` low-order bytes of a number, least significant first. -/
def littleEndian : (width : Nat) → Nat → Bytes
  | 0, _ => []
  | width + 1, n => UInt8.ofNat n :: littleEndian width (n / 256)

/-- The number that a list of bytes spells, least significant byte first. -/
def toNat (bs : Bytes) : Nat :=
  bs.foldr (fun b n => b.toNat + 256 * n) 0

/-- The first `n` bytes and those after them, if there are as many. -/
def splitAt? (n : Nat) (bs : Bytes) : Option (Bytes × Bytes) :=
  let (front, back) := bs.splitAt n
  if front.length = n then some (front, back) else none

/-- The bytes of the UTF-8 form of a text. -/
def ofText (s : String) : Bytes :=
  s.toUTF8.toList

/-- The text whose UTF-8 form the bytes are, if they are one. -/
def toText? (bs : Bytes) : Option String :=
  String.fromUTF8? bs.toByteArray

/-! ## Width and value of little-endian numbers -/

@[simp] theorem length_littleEndian (width n : Nat) : (littleEndian width n).length = width := by
  induction width generalizing n with
  | zero => rfl
  | succ width ih => simp [littleEndian, ih]

@[simp] theorem toNat_nil : toNat [] = 0 := rfl

@[simp] theorem toNat_cons (b : UInt8) (bs : Bytes) : toNat (b :: bs) = b.toNat + 256 * toNat bs :=
  rfl

/-- What bytes spell is bounded by their number. -/
theorem toNat_lt (bs : Bytes) : toNat bs < 256 ^ bs.length := by
  induction bs with
  | nil => simp
  | cons b bs ih =>
    have := b.toNat_lt
    simp only [toNat_cons, List.length_cons, Nat.pow_succ]
    omega

/-- The bytes at a width are those of the low part and then those of the high part. -/
theorem littleEndian_add (low high n : Nat) :
    littleEndian (low + high) n =
      littleEndian low (n % 256 ^ low) ++ littleEndian high (n / 256 ^ low) := by
  induction low generalizing n with
  | zero => simp [littleEndian]
  | succ low ih =>
    have hbyte : UInt8.ofNat (n % 256 ^ (low + 1)) = UInt8.ofNat n := by
      apply UInt8.toNat_inj.1
      rw [UInt8.toNat_ofNat', UInt8.toNat_ofNat', Nat.pow_succ',
        Nat.mod_mod_of_dvd n (Nat.dvd_mul_right 256 _)]
    have hrest : n % 256 ^ (low + 1) / 256 = n / 256 % 256 ^ low := by
      rw [Nat.pow_succ', Nat.mod_mul_right_div_self]
    rw [Nat.succ_add, littleEndian, ih, littleEndian, hbyte, hrest, Nat.div_div_eq_div_mul,
      Nat.pow_succ', List.cons_append]

/-- A number that fits the width is read back. -/
theorem toNat_littleEndian {width n : Nat} (h : n < 256 ^ width) :
    toNat (littleEndian width n) = n := by
  induction width generalizing n with
  | zero => simp_all [littleEndian]
  | succ width ih =>
    have hq : n / 256 < 256 ^ width := by
      rw [Nat.pow_succ] at h
      omega
    simp only [littleEndian, toNat_cons, ih hq, UInt8.toNat_ofNat']
    omega

/-- Bytes are read and written back at their own width. -/
theorem littleEndian_toNat (bs : Bytes) : littleEndian bs.length (toNat bs) = bs := by
  induction bs with
  | nil => rfl
  | cons b bs ih =>
    have := b.toNat_lt
    have hq : (b.toNat + 256 * toNat bs) / 256 = toNat bs := by omega
    have hb : UInt8.ofNat (b.toNat + 256 * toNat bs) = b := by
      apply UInt8.toNat_inj.1
      simp only [UInt8.toNat_ofNat']
      omega
    simp [littleEndian, hq, hb, ih]

/-! ## Cutting bytes off the front -/

/-- The pieces of a cut put together are the whole, and the first has the length asked for. -/
theorem splitAt?_eq_some_iff {n : Nat} {bs front back : Bytes} :
    splitAt? n bs = some (front, back) ↔ bs = front ++ back ∧ front.length = n := by
  simp only [splitAt?, List.splitAt_eq]
  constructor
  · intro h
    split at h
    · simp only [Option.some.injEq, Prod.mk.injEq] at h
      obtain ⟨rfl, rfl⟩ := h
      exact ⟨(List.take_append_drop n bs).symm, by assumption⟩
    · cases h
  · rintro ⟨rfl, rfl⟩
    simp

/-- A cut fails exactly when too few bytes are there. -/
theorem splitAt?_eq_none_iff {n : Nat} {bs : Bytes} :
    splitAt? n bs = none ↔ bs.length < n := by
  simp only [splitAt?, List.splitAt_eq, List.length_take]
  split <;> simp <;> omega

end Bytes

end LedgerClient
