import LedgerClient.Bytes.Signed

/-!
# Signed numbers and their bytes

`Fits width n` says that `width` bytes have room for the two's complement of `n`. Any bytes spell a
number that fits their own width (`fits_toInt`), and `signedWidth` is the least width that a number
fits (`signedWidth_le_iff`). So `ofInt` gives bytes that spell the number, and no fewer do
(`ofInt_shortest`). Whether or not they are the fewest, the first of them is the low byte of the
number (`toInt_emod`).
-/

namespace LedgerClient.Bytes

open scoped Power

/-- A number keeps its sign in `width` bytes; no bytes at all have room for zero only. -/
def Fits (width : Nat) (n : Int) : Prop := -256 ^ width ≤ 2 * n ∧ 2 * n < 256 ^ width

/-- A number has at most so many bits if it lies below the power of two. -/
theorem bitLength_le_iff {n k : Nat} : bitLength n ≤ k ↔ n < 2 ^ k := by
  rw [bitLength]
  split
  · next h =>
    subst h
    exact iff_of_true (Nat.zero_le k) (Nat.two_pow_pos k)
  · next h => exact Nat.log2_lt h

/-- The numbers of `width + 1` bytes have one bit less than there are, beside the sign. -/
theorem pow_succ_eq_two_mul (width : Nat) : 256 ^ (width + 1) = 2 * 2 ^ (8 * width + 7) := by
  have hpow : 2 ^ (8 * width) = 256 ^ width := Nat.pow_mul 2 8 width
  rw [Nat.pow_succ, Nat.pow_add, hpow]
  omega

/-- The width of an integer is the least at which it keeps its sign. -/
theorem signedWidth_le_iff {n : Int} {width : Nat} : signedWidth n ≤ width ↔ Fits width n := by
  rw [Fits]
  cases width with
  | zero =>
    have hzero : signedWidth n ≤ 0 ↔ n = 0 := by
      rw [signedWidth]
      split
      · next h => exact iff_of_true (Nat.le_refl 0) h
      · next h => split <;> exact iff_of_false (Nat.not_succ_le_zero _) h
    rw [hzero, Int.pow_zero]
    omega
  | succ width =>
    have hcast : ((256 ^ (width + 1) : Nat) : Int) = 256 ^ (width + 1) := Int.natCast_pow 256 _
    -- One bit of the highest byte is for the sign.
    have hbits : ∀ m : Nat, bitLength m / 8 + 1 ≤ width + 1 ↔ m < 2 ^ (8 * width + 7) := by
      intro m
      rw [← bitLength_le_iff]
      omega
    have hpos : 0 < 2 ^ (8 * width + 7) := Nat.two_pow_pos _
    rw [← hcast, pow_succ_eq_two_mul, signedWidth]
    split
    · omega
    split
    · rw [hbits]
      omega
    · rw [hbits]
      omega

@[simp] theorem length_ofInt (n : Int) : (ofInt n).length = signedWidth n := by
  rw [ofInt_eq, length_littleEndian]

/-- The bytes of a number spell it. -/
theorem toInt_ofInt (n : Int) : toInt (ofInt n) = n := by
  obtain ⟨hmin, hmax⟩ := signedWidth_le_iff.1 (Nat.le_refl (signedWidth n))
  have hpos : (0 : Int) < 256 ^ signedWidth n := Int.pow_pos (by decide)
  have hcast : ((256 ^ signedWidth n : Nat) : Int) = 256 ^ signedWidth n := Int.natCast_pow 256 _
  have hlt : (n % 256 ^ signedWidth n).toNat < 256 ^ signedWidth n := by
    have := Int.emod_lt_of_pos n hpos
    omega
  rw [toInt, length_ofInt, ofInt_eq, toNat_littleEndian hlt,
    Int.toNat_of_nonneg (Int.emod_nonneg n (Int.ne_of_gt hpos)), ← hcast, Int.emod_bmod]
  exact Int.bmod_eq_of_le_mul_two (by omega) (by omega)

/-- Bytes spell a number that fits as many. -/
theorem fits_toInt (bs : Bytes) : Fits bs.length (toInt bs) := by
  have hpos : 0 < 256 ^ bs.length := Nat.pow_pos (by decide)
  have hmin := Int.le_bmod (x := toNat bs) hpos
  have hmax := Int.bmod_lt (x := toNat bs) hpos
  have hcast : ((256 ^ bs.length : Nat) : Int) = 256 ^ bs.length := Int.natCast_pow 256 _
  rw [Fits, toInt, ← hcast]
  omega

/-- The bytes of a number are the fewest that spell it. -/
theorem ofInt_shortest (n : Int) :
    toInt (ofInt n) = n ∧ ∀ bs, toInt bs = n → (ofInt n).length ≤ bs.length := by
  refine ⟨toInt_ofInt n, ?_⟩
  rintro bs rfl
  rw [length_ofInt, signedWidth_le_iff]
  exact fits_toInt bs

/-- The low byte of a number is the first of any bytes that spell it; zero may be spelt by none. -/
theorem toInt_emod (bs : Bytes) : toInt bs % 256 = (bs.headD 0).toNat := by
  cases bs with
  | nil => rfl
  | cons b bs =>
    have hdvd : (256 : Int) ∣ (256 ^ (b :: bs).length : Nat) :=
      Int.natCast_dvd_natCast.2 (Nat.dvd_mul_left 256 _)
    have := b.toNat_lt
    rw [toInt, ← Int.emod_emod_of_dvd _ hdvd, Int.bmod_emod, Int.emod_emod_of_dvd _ hdvd,
      toNat_cons, List.headD_cons]
    omega

end LedgerClient.Bytes
