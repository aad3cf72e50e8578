import LedgerClient.Ledger.Witness
import LedgerClient.Proofs.Bytes.Hex
import LedgerClient.Proofs.Ledger.HashOrder
import Mathlib.Data.Nat.Digits.Defs

/-!
# Hashes in the order in which they are shown

Digits are in the order of the halves that they stand for, so that texts of hexadecimal digits are
in the order of the bytes (`Hex.compare_encode`). The text of a hash has the digits of its number
(`Digest.ofDigits_shownDigits`), and therefore the order of the texts is that of the numbers
(`Digest.compare_toHex`), in which both sizes of hashes are compared
(`hashes_are_ordered_as_shown`).
-/

namespace LedgerClient

open scoped Power

namespace Text

/-- Lists of characters are in the order of the numbers of the characters. -/
theorem compareOfLessAndEq_chars (cs ds : List Char) :
    compareOfLessAndEq cs ds = Ord.compare (cs.map Char.toNat) (ds.map Char.toNat) := by
  induction cs generalizing ds with
  | nil => cases ds <;> simp [compareOfLessAndEq]
  | cons c cs ih =>
    cases ds with
    | nil => simp [compareOfLessAndEq]
    | cons d ds =>
      rw [List.map_cons, List.map_cons, List.compare_cons_cons, ← ih]
      simp only [compareOfLessAndEq, List.cons_lt_cons_iff, List.cons.injEq]
      obtain hlt | heq | hgt := Nat.lt_trichotomy c.toNat d.toNat
      · have hchar : c < d := hlt
        rw [if_pos (.inl hchar), Nat.compare_eq_lt.2 hlt]
        rfl
      · obtain rfl : c = d := Char.toNat_inj.1 heq
        simp
      · have hchar : d < c := hgt
        have hnot : ¬ c < d := Nat.lt_asymm hgt
        have hne : c ≠ d := by
          rintro rfl
          exact hnot hchar
        simp [hnot, hne, Nat.compare_eq_gt.2 hgt]

/-- Texts are compared by the numbers of their characters, from the first on. -/
theorem compare_eq_compare_map (s t : String) :
    Ord.compare s t = Ord.compare (s.toList.map Char.toNat) (t.toList.map Char.toNat) := by
  rw [← compareOfLessAndEq_chars]
  show compareOfLessAndEq s t = _
  simp only [compareOfLessAndEq, String.lt_iff, String.toList_inj]

end Text

namespace Hex

/-- Digits are in the order of their numbers. -/
theorem compare_digit : ∀ m < 16, ∀ n < 16,
    Ord.compare (digit m).toNat (digit n).toNat = Ord.compare m n := by decide

/-- Rows of digits are in the order of their numbers. -/
theorem compare_map_digit {ms ns : List Nat} (hms : ∀ m ∈ ms, m < 16) (hns : ∀ n ∈ ns, n < 16) :
    Ord.compare ((ms.map digit).map Char.toNat) ((ns.map digit).map Char.toNat) =
      Ord.compare ms ns := by
  induction ms generalizing ns with
  | nil => cases ns <;> rfl
  | cons m ms ih =>
    cases ns with
    | nil => rfl
    | cons n ns =>
      obtain ⟨hm, hms⟩ := List.forall_mem_cons.1 hms
      obtain ⟨hn, hns⟩ := List.forall_mem_cons.1 hns
      simp only [List.map_cons, List.compare_cons_cons, compare_digit m hm n hn] at ih ⊢
      rw [ih hms hns]

/-- Bytes are compared by their halves. -/
theorem compare_halves (as bs : Bytes) :
    Ord.compare (halves as) (halves bs) = Ledger.Hash256.compareBytes as bs := by
  induction as generalizing bs with
  | nil => cases bs <;> rfl
  | cons a as ih =>
    cases bs with
    | nil => rfl
    | cons b bs =>
      rw [halves_cons, halves_cons, List.compare_cons_cons, List.compare_cons_cons, ih,
        Ledger.Hash256.compareBytes, ← Ordering.then_assoc,
        compare_parts (Nat.mod_lt _ (by decide)) (Nat.mod_lt _ (by decide)), Nat.mod_add_div,
        Nat.mod_add_div]

/-- What is written for bytes is in their order. -/
theorem compare_encode (as bs : Bytes) :
    Ord.compare (encode as) (encode bs) = Ledger.Hash256.compareBytes as bs := by
  rw [Text.compare_eq_compare_map, toList_encode, toList_encode,
    compare_map_digit (fun _ => lt_of_mem_halves) (fun _ => lt_of_mem_halves), compare_halves]

/-- The digits of bytes spell, from the last on, the number of the bytes from the last on. -/
theorem ofDigits_halves (bs : Bytes) :
    Nat.ofDigits 16 (halves bs).reverse = Bytes.toNat bs.reverse := by
  induction bs with
  | nil => rfl
  | cons b bs ih =>
    have hpow : 16 ^ (2 * bs.length) = 256 ^ bs.length := Nat.pow_mul 16 2 bs.length
    rw [halves_cons, List.reverse_cons, List.reverse_cons, List.append_assoc, Nat.ofDigits_append,
      ih, List.reverse_cons, Bytes.toNat_append, List.length_reverse, length_halves, hpow,
      List.length_reverse]
    simp [Nat.ofDigits_cons, Nat.mod_add_div]

end Hex

namespace Ledger

namespace Digest

variable {size : Nat}

/-- The digits that a hash is shown in, the most significant first. -/
def shownDigits (h : Digest size) : List Nat := Hex.halves h.bytes.reverse

/-- A hash is shown in the digits of its bytes, from the last byte on. -/
theorem toList_toHex (h : Digest size) : h.toHex.toList = h.shownDigits.map Hex.digit :=
  Hex.toList_encode _

/-- The digits are those of the number that the hash spells. -/
theorem ofDigits_shownDigits (h : Digest size) :
    Nat.ofDigits 16 h.shownDigits.reverse = h.toNat := by
  rw [shownDigits, Hex.ofDigits_halves, List.reverse_reverse]
  rfl

/-- Hashes are shown in the order of their numbers. -/
theorem compare_toHex (a b : Digest size) :
    Ord.compare a.toHex b.toHex = Ord.compare a.toNat b.toNat := by
  have hlength : a.bytes.reverse.length = b.bytes.reverse.length := by
    rw [List.length_reverse, List.length_reverse, a.length_bytes, b.length_bytes]
  rw [toHex, toHex, Hex.compare_encode, Hash256.compareBytes_eq_compare_toNat hlength,
    List.reverse_reverse, List.reverse_reverse]
  rfl

/-- The order of the numbers is a total order of the hashes. -/
theorem linear_of_compare_toNat {cmp : Digest size → Digest size → Ordering}
    (h : ∀ a b, cmp a b = Ord.compare a.toNat b.toNat) : Std.TransCmp cmp ∧ Std.LawfulEqCmp cmp := by
  refine ⟨{ eq_swap := ?_, isLE_trans := ?_ }, { compare_self := ?_, eq_of_compare := ?_ }⟩
  · intro a b
    rw [h, h]
    exact Std.OrientedCmp.eq_swap
  · intro a b c hab hbc
    rw [h] at hab hbc ⊢
    exact Std.TransCmp.isLE_trans hab hbc
  · intro a
    rw [h]
    exact Std.ReflCmp.compare_self
  · intro a b hab
    rw [h] at hab
    exact toNat_inj.1 (Nat.compare_eq_eq.1 hab)

end Digest

namespace Witness

/-- The text that the account of a witness is shown as, if it is known. -/
def shownAccount (w : Witness) : Option String := w.scriptHash.map Digest.toHex

/-- Witnesses are sorted by the texts that their accounts are shown as. -/
theorem le_eq_isLE (v w : Witness) : le v w = (Ord.compare v.shownAccount w.shownAccount).isLE := by
  rw [le, shownAccount, shownAccount]
  cases v.scriptHash with
  | none => cases w.scriptHash <;> rfl
  | some a =>
    cases w.scriptHash with
    | none => rfl
    | some b =>
      show (Hash160.compare a b != .gt) = (Ord.compare a.toHex b.toHex).isLE
      rw [Hash160.compare_eq_compare_toNat, Digest.compare_toHex]
      cases Ord.compare a.toNat b.toNat <;> rfl

end Witness

/-- A hash is shown in the digits of its number, and hashes of both sizes are ordered as their
numbers and as the texts that they are shown as; both orders are total and hold no two hashes equal.
So the witnesses of a transaction, sorted by script hash, are sorted by the hash that is shown. -/
theorem hashes_are_ordered_as_shown :
    (∀ (size : Nat) (h : Digest size), h.toHex.toList = h.shownDigits.map Hex.digit ∧
      Nat.ofDigits 16 h.shownDigits.reverse = h.toNat ∧ h.toNat < 2 ^ (8 * size)) ∧
    (∀ a b : Hash160, Hash160.compare a b = Ord.compare a.toNat b.toNat ∧
      Hash160.compare a b = Ord.compare a.toHex b.toHex) ∧
    (∀ a b : Hash256, Hash256.compare a b = Ord.compare a.toNat b.toNat ∧
      Hash256.compare a b = Ord.compare a.toHex b.toHex) ∧
    (Std.TransCmp Hash160.compare ∧ Std.LawfulEqCmp Hash160.compare) ∧
    (Std.TransCmp Hash256.compare ∧ Std.LawfulEqCmp Hash256.compare) ∧
    ∀ ws : List Witness, Witness.sort ws =
      ws.mergeSort fun v w => (Ord.compare v.shownAccount w.shownAccount).isLE := by
  refine ⟨fun size h => ⟨h.toList_toHex, h.ofDigits_shownDigits, ?_⟩, ?_, ?_,
    Digest.linear_of_compare_toNat Hash160.compare_eq_compare_toNat,
    Digest.linear_of_compare_toNat Hash256.compare_eq_compare_toNat, fun ws => ?_⟩
  · have hlt := Bytes.toNat_lt h.bytes
    rwa [h.length_bytes, ← Nat.pow_mul 2 8 size] at hlt
  · intro a b
    rw [Digest.compare_toHex]
    exact ⟨Hash160.compare_eq_compare_toNat a b, Hash160.compare_eq_compare_toNat a b⟩
  · intro a b
    rw [Digest.compare_toHex]
    exact ⟨Hash256.compare_eq_compare_toNat a b, Hash256.compare_eq_compare_toNat a b⟩
  · rw [Witness.sort, funext₂ Witness.le_eq_isLE]

end Ledger

end LedgerClient
