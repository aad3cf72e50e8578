import LedgerClient.Ledger.Digest

/-!
# Hashes as numbers

A hash is known by the number that it spells (`Digest.toNat_inj`), and hashes are ordered as those
numbers: script hashes, although they are compared by three words of unequal lengths
(`Hash160.compare_eq_compare_toNat`), and longer ones, which are compared byte by byte
(`Hash256.compare_eq_compare_toNat`). The words of a script hash are any three
(`Hash160.words_ofWords`) and say all about it (`Hash160.ofWords_words`), so that hashes are told
apart by their words as they are by their bytes (`Hash160.words_inj`).
-/

namespace LedgerClient

open scoped Power

/-- The bytes of the second list count after those of the first. -/
theorem Bytes.toNat_append (a b : Bytes) :
    Bytes.toNat (a ++ b) = Bytes.toNat a + 256 ^ a.length * Bytes.toNat b := by
  induction a with
  | nil => simp
  | cons c a ih =>
    have hassoc :
        256 ^ a.length * 256 * Bytes.toNat b = 256 * (256 ^ a.length * Bytes.toNat b) := by
      rw [Nat.mul_comm (256 ^ a.length), Nat.mul_assoc]
    simp only [List.cons_append, Bytes.toNat_cons, ih, List.length_cons, Nat.pow_succ, hassoc]
    omega

/-- Numbers are compared by their high parts first. -/
theorem compare_parts {base low low' high high' : Nat} (h : low < base) (h' : low' < base) :
    (compare high high').then (compare low low') =
      compare (low + base * high) (low' + base * high') := by
  obtain hlt | rfl | hgt := Nat.lt_trichotomy high high'
  · have hmul := Nat.mul_le_mul_left base hlt
    rw [Nat.mul_succ] at hmul
    have hwhole : low + base * high < low' + base * high' := by omega
    rw [Nat.compare_eq_lt.2 hlt, Nat.compare_eq_lt.2 hwhole]
    rfl
  · rw [Nat.compare_eq_eq.2 rfl, Ordering.then]
    obtain hlow | rfl | hlow := Nat.lt_trichotomy low low'
    · rw [Nat.compare_eq_lt.2 hlow, Nat.compare_eq_lt.2 (by omega)]
    · rw [Nat.compare_eq_eq.2 rfl, Nat.compare_eq_eq.2 rfl]
    · rw [Nat.compare_eq_gt.2 hlow, Nat.compare_eq_gt.2 (by omega)]
  · have hmul := Nat.mul_le_mul_left base hgt
    rw [Nat.mul_succ] at hmul
    have hwhole : low' + base * high' < low + base * high := by omega
    rw [Nat.compare_eq_gt.2 hgt, Nat.compare_eq_gt.2 hwhole]
    rfl

namespace Ledger

/-- Bytes are taken as the hash that has them. -/
theorem Digest.ofBytes_eq_ok_iff {size : Nat} {bs : Bytes} {h : Digest size} :
    ofBytes bs = .ok h ↔ bs = h.bytes := by
  rw [ofBytes]
  constructor
  · intro hbs
    split at hbs
    · cases hbs
      rfl
    · cases hbs
  · rintro rfl
    rw [dif_pos h.length_bytes]

/-- Hashes of one size that spell the same number are the same. -/
theorem Digest.toNat_inj {size : Nat} {a b : Digest size} : a.toNat = b.toNat ↔ a = b := by
  refine ⟨fun h => ?_, congrArg _⟩
  obtain ⟨as, has⟩ := a
  obtain ⟨bs, hbs⟩ := b
  have hbytes : as = bs := by
    rw [← Bytes.littleEndian_toNat as, ← Bytes.littleEndian_toNat bs, has, hbs]
    exact congrArg _ h
  subst hbytes
  rfl

namespace Hash160

/-- The bytes of a script hash are cut into the parts that its words stand for. -/
theorem bytes_eq_parts (h : Hash160) :
    h.bytes = h.bytes.take 8 ++ ((h.bytes.drop 8).take 8 ++ h.bytes.drop 16) := by
  rw [← List.drop_drop (i := 8) (j := 8), List.take_append_drop, List.take_append_drop]

/-- These parts are of eight, eight and four bytes. -/
theorem length_parts (h : Hash160) : (h.bytes.take 8).length = 8 ∧
    ((h.bytes.drop 8).take 8).length = 8 ∧ (h.bytes.drop 16).length = 4 := by
  have hlength : h.bytes.length = 20 := h.length_bytes
  simp [hlength]

/-- The number of a script hash is put together from its words. -/
theorem toNat_eq_words (h : Hash160) :
    h.toNat = (words h).1 + 256 ^ (8 : Nat) * (words h).2.1 +
      256 ^ (16 : Nat) * (words h).2.2 := by
  obtain ⟨hlow, hmid, -⟩ := length_parts h
  have hvalue : h.toNat = Bytes.toNat (h.bytes.take 8) +
      256 ^ (8 : Nat) * (Bytes.toNat ((h.bytes.drop 8).take 8) +
        256 ^ (8 : Nat) * Bytes.toNat (h.bytes.drop 16)) := by
    refine (congrArg Bytes.toNat (bytes_eq_parts h)).trans ?_
    rw [Bytes.toNat_append, Bytes.toNat_append, hlow, hmid]
  rw [hvalue]
  simp only [words]
  omega

/-- The words are numbers of eight, eight and four bytes. -/
theorem words_lt (h : Hash160) : (words h).1 < 256 ^ (8 : Nat) ∧
    (words h).2.1 < 256 ^ (8 : Nat) ∧ (words h).2.2 < 256 ^ (4 : Nat) := by
  obtain ⟨hlow, hmid, hhigh⟩ := length_parts h
  refine ⟨?_, ?_, ?_⟩
  · exact hlow ▸ Bytes.toNat_lt (h.bytes.take 8)
  · exact hmid ▸ Bytes.toNat_lt ((h.bytes.drop 8).take 8)
  · exact hhigh ▸ Bytes.toNat_lt (h.bytes.drop 16)

/-- The words that a script hash is made of are its words. -/
theorem words_ofWords (low mid : UInt64) (high : UInt32) :
    words (ofWords low mid high) = (low.toNat, mid.toNat, high.toNat) := by
  have hlow : (Bytes.littleEndian 8 low.toNat).length = 8 := Bytes.length_littleEndian 8 _
  have hmid : (Bytes.littleEndian 8 mid.toNat).length = 8 := Bytes.length_littleEndian 8 _
  have hfront : (ofWords low mid high).bytes.take 8 = Bytes.littleEndian 8 low.toNat :=
    List.take_left' hlow
  have hback : (ofWords low mid high).bytes.drop 8 =
      Bytes.littleEndian 8 mid.toNat ++ Bytes.littleEndian 4 high.toNat := List.drop_left' hlow
  have hlast : (ofWords low mid high).bytes.drop 16 = Bytes.littleEndian 4 high.toNat := by
    rw [← List.drop_drop (i := 8) (j := 8), hback, List.drop_left' hmid]
  rw [words, hfront, hback, hlast, List.take_left' hmid, Bytes.toNat_littleEndian low.toNat_lt,
    Bytes.toNat_littleEndian mid.toNat_lt, Bytes.toNat_littleEndian high.toNat_lt]

/-- A script hash is made of its words. -/
theorem ofWords_words (h : Hash160) :
    ofWords (.ofNat (words h).1) (.ofNat (words h).2.1) (.ofNat (words h).2.2) = h := by
  obtain ⟨hlow, hmid, hhigh⟩ := words_lt h
  have hwords : words (ofWords (.ofNat (words h).1) (.ofNat (words h).2.1)
      (.ofNat (words h).2.2)) = words h := by
    rw [words_ofWords, UInt64.toNat_ofNat_of_lt' hlow, UInt64.toNat_ofNat_of_lt' hmid,
      UInt32.toNat_ofNat_of_lt' hhigh]
  rw [← Digest.toNat_inj, toNat_eq_words, toNat_eq_words, hwords]

/-- Script hashes are the same if their words are. -/
theorem words_inj {a b : Hash160} : words a = words b ↔ a = b := by
  refine ⟨fun h => ?_, congrArg _⟩
  rw [← ofWords_words a, h, ofWords_words]

/-- All bytes of a script hash are zero if its words are. -/
theorem isZero_iff_words {h : Hash160} : h.isZero = true ↔ words h = (0, 0, 0) := by
  have hzero : words .zero = (0, 0, 0) := by decide
  have hbytes : h.isZero = true ↔ h.bytes = List.replicate Limits.scriptHashSize 0 := by
    rw [Digest.isZero, List.all_eq_true, List.eq_replicate_iff, and_iff_right h.length_bytes]
    simp only [beq_iff_eq]
  rw [← hzero, words_inj, hbytes]
  obtain ⟨bs, hbs⟩ := h
  exact (Digest.mk.injEq ..).symm.to_iff

/-- Script hashes are ordered as the numbers that they spell. -/
theorem compare_eq_compare_toNat (a b : Hash160) :
    compare a b = Ord.compare a.toNat b.toNat := by
  obtain ⟨hlow, hmid, -⟩ := words_lt a
  obtain ⟨hlow', hmid', -⟩ := words_lt b
  rw [toNat_eq_words, toNat_eq_words, ← compare_parts (by omega) (by omega),
    ← compare_parts hlow hlow']
  rfl

end Hash160

namespace Hash256

/-- Bytes of one length are compared as the numbers that they spell from the last on. -/
theorem compareBytes_eq_compare_toNat {as bs : Bytes} (h : as.length = bs.length) :
    compareBytes as bs = Ord.compare (Bytes.toNat as.reverse) (Bytes.toNat bs.reverse) := by
  induction as generalizing bs with
  | nil =>
    obtain rfl := List.length_eq_zero_iff.1 h.symm
    rfl
  | cons a as ih =>
    cases bs with
    | nil => cases h
    | cons b bs =>
      have hlength : as.length = bs.length := Nat.succ.inj h
      have hlow := Bytes.toNat_lt as.reverse
      have hlow' := Bytes.toNat_lt bs.reverse
      rw [List.length_reverse] at hlow hlow'
      rw [compareBytes, ih hlength, List.reverse_cons, List.reverse_cons, Bytes.toNat_append,
        Bytes.toNat_append, List.length_reverse, List.length_reverse, ← hlength,
        compare_parts hlow (hlength ▸ hlow')]
      simp

/-- Hashes are ordered as the numbers that they spell. -/
theorem compare_eq_compare_toNat (a b : Hash256) :
    compare a b = Ord.compare a.toNat b.toNat := by
  rw [compare, compareBytes_eq_compare_toNat (by simp [a.length_bytes, b.length_bytes]),
    List.reverse_reverse, List.reverse_reverse]
  rfl

end Hash256

end Ledger

end LedgerClient
