import LedgerClient.Proofs.Bytes.Rebase
import LedgerClient.Proofs.Bytes.Text
import LedgerClient.Proofs.Result
import LedgerClient.Text.Base58Check
import Mathlib.Data.Nat.Digits.Defs

/-!
# Base 58 texts and their bytes

What base 58 is, is said by `Base58.Spells`: a text and bytes have as many `1`s as zero bytes in
front, and behind them spell the same number in base 58 and in base 256. Both directions of the
conversion are `Radix.rebase` between those bases, and a text is read only if its characters are
digits, so that there is one text for all bytes (`Base58.decode_eq_ok_iff`). A checksum follows from
the payload and takes as many bytes whatever the payload is. So there is one text for every payload
too, and no other text holds it (`Base58Check.payload_has_one_text`).
-/

namespace LedgerClient

open Radix (digits leadingZeros padded rebase value)

/-! ## The bytes of a text as digits -/

namespace Bytes

/-- The numbers of bytes. -/
def values (bs : Bytes) : List Nat := bs.map UInt8.toNat

/-- Bytes are digits to the base 256. -/
theorem lt_of_mem_values {bs : Bytes} : ∀ d ∈ values bs, d < 256 := by
  intro d hd
  obtain ⟨b, -, rfl⟩ := List.mem_map.1 hd
  exact b.toNat_lt

/-- Bytes are told by their numbers. -/
theorem map_ofNat_values (bs : Bytes) : (values bs).map UInt8.ofNat = bs := by
  rw [values, List.map_map]
  exact (List.map_congr_left fun b _ => UInt8.ofNat_toNat).trans (List.map_id bs)

/-- Numbers below 256 are those of the bytes made of them. -/
theorem values_map_ofNat {ds : List Nat} (h : ∀ d ∈ ds, d < 256) :
    values (ds.map UInt8.ofNat) = ds := by
  rw [values, List.map_map]
  refine (List.map_congr_left fun d hd => ?_).trans (List.map_id ds)
  exact (UInt8.toNat_ofNat').trans (Nat.mod_eq_of_lt (h d hd))

/-- The number of bytes is what their numbers spell. -/
theorem toNat_eq_value (bs : Bytes) : toNat bs = value 256 (values bs) :=
  (List.foldr_map (f := UInt8.toNat) (g := fun d n => d + 256 * n)).symm

/-- Zeros in front are zero bytes in front. -/
theorem leadingZeros_values (bs : Bytes) :
    leadingZeros (values bs) = (bs.takeWhile (· == 0)).length := by
  have hzero : (fun b : UInt8 => b.toNat == 0) = (· == 0) := by
    funext b
    rw [Bool.eq_iff_iff, beq_iff_eq, beq_iff_eq, ← UInt8.toNat_inj]
    rfl
  rw [leadingZeros, values, List.takeWhile_map, List.length_map]
  exact congrArg (fun p => (bs.takeWhile p).length) hzero

end Bytes

namespace Base58

/-! ## Digits -/

/-- The byte of a digit. -/
def digitByte (d : Nat) : UInt8 := UInt8.ofNat (digit d).toNat

/-- The digit for zero is a one. -/
theorem digit_zero : digit 0 = '1' := by
  decide

/-- There are 58 digits. -/
theorem length_alphabet : alphabet.length = 58 := by
  decide

/-- All digits are characters of ASCII. -/
theorem digit_ascii {d : Nat} (h : d < 58) : (digit d).toNat < 128 := by
  revert d
  decide

/-- The byte of a digit is read as that digit. -/
theorem digitValue?_digitByte {d : Nat} (h : d < 58) : digitValue? (digitByte d) = some d := by
  revert d
  decide

/-- A byte with a value is the byte of the digit of that value. -/
theorem of_digitValue? {b : UInt8} {d : Nat} (h : digitValue? b = some d) :
    d < 58 ∧ digitByte d = b := by
  obtain ⟨hlt, hb, -⟩ := List.findIdx?_eq_some_iff_getElem.1 h
  refine ⟨length_alphabet ▸ hlt, ?_⟩
  rw [digitByte, digit, ← List.getElem_eq_getD (h := hlt), eq_of_beq hb, UInt8.ofNat_toNat]

/-- It is a byte of ASCII. -/
theorem digitByte_lt {d : Nat} (h : d < 58) : (digitByte d).toNat < 128 := by
  rw [digitByte, UInt8.toNat_ofNat']
  exact Nat.lt_of_le_of_lt (Nat.mod_le _ _) (digit_ascii h)

/-- Bytes are digits if they have values, which are those that are read. -/
theorem digitValues_eq_ok_iff {bs : Bytes} {index : Nat} {acc ds : List Nat} :
    digitValues index acc bs = .ok ds ↔
      ∃ es, (∀ e ∈ es, e < 58) ∧ bs = es.map digitByte ∧ ds = acc.reverse ++ es := by
  induction bs generalizing index acc with
  | nil =>
    rw [digitValues, Except.ok.injEq]
    constructor
    · rintro rfl
      exact ⟨[], nofun, rfl, (List.append_nil _).symm⟩
    · rintro ⟨es, -, hes, rfl⟩
      obtain rfl := List.map_eq_nil_iff.1 hes.symm
      rw [List.append_nil]
  | cons b bs ih =>
    rw [digitValues]
    constructor
    · intro h
      split at h
      · cases h
      split at h
      · cases h
      · next d hd =>
        obtain ⟨es, hlt, rfl, rfl⟩ := ih.1 h
        obtain ⟨hdlt, rfl⟩ := of_digitValue? hd
        exact ⟨d :: es, List.forall_mem_cons.2 ⟨hdlt, hlt⟩, rfl, by simp⟩
    · rintro ⟨es, hlt, hes, rfl⟩
      cases es with
      | nil => cases hes
      | cons e es =>
        obtain ⟨rfl, rfl⟩ := List.cons.inj hes
        obtain ⟨he, hlt⟩ := List.forall_mem_cons.1 hlt
        rw [if_neg (Nat.not_le_of_lt (digitByte_lt he)), digitValue?_digitByte he]
        exact ih.2 ⟨es, hlt, rfl, by simp⟩

/-! ## Texts -/

/-- The text with the given digits. -/
def ofDigits (ds : List Nat) : String := String.ofList (ds.map digit)

/-- The bytes of a text of digits are those of the digits. -/
theorem ofText_ofDigits {ds : List Nat} (h : ∀ d ∈ ds, d < 58) :
    Bytes.ofText (ofDigits ds) = ds.map digitByte := by
  rw [ofDigits, Bytes.ofText_ofList, List.map_map]
  · rfl
  · intro c hc
    obtain ⟨d, hd, rfl⟩ := List.mem_map.1 hc
    exact digit_ascii (h d hd)

/-- The text of bytes has their digits in base 58. -/
theorem encode_eq (bs : Bytes) : encode bs = ofDigits (rebase 256 58 bs.values) := by
  have hnumber : Bytes.toNat bs.reverse = value 256 bs.values.reverse := by
    rw [Bytes.toNat_eq_value, Bytes.values, List.map_reverse]
    rfl
  rw [encode, hnumber, ← Bytes.leadingZeros_values, ofDigits, rebase, padded, List.map_append,
    List.map_replicate, digit_zero]

/-- What a text of digits spells is in base 256. -/
theorem decode_eq_ok_iff_rebase {s : String} {bs : Bytes} : decode s = .ok bs ↔
    ∃ ds, (∀ d ∈ ds, d < 58) ∧ s = ofDigits ds ∧ bs.values = rebase 58 256 ds := by
  have hback : ∀ ds, List.replicate (leadingZeros ds) 0 ++
      ((digits 256 (value 58 ds.reverse)).map UInt8.ofNat).reverse =
        (rebase 58 256 ds).map UInt8.ofNat := fun ds => by
    rw [rebase, padded, List.map_append, List.map_replicate, List.map_reverse]
    rfl
  rw [decode, Except.bind_eq_ok_iff]
  constructor
  · rintro ⟨ds, hds, hbs⟩
    obtain ⟨_, hlt, htext, rfl⟩ := digitValues_eq_ok_iff.1 hds
    obtain rfl := Except.ok.inj hbs
    refine ⟨ds, hlt, Bytes.ofText_injective (htext.trans (ofText_ofDigits hlt).symm), ?_⟩
    exact (congrArg Bytes.values (hback ds)).trans
      (Bytes.values_map_ofNat (Radix.lt_of_mem_padded (by decide)))
  · rintro ⟨ds, hlt, rfl, hbs⟩
    refine ⟨ds, digitValues_eq_ok_iff.2 ⟨ds, hlt, ofText_ofDigits hlt, rfl⟩, ?_⟩
    rw [← Bytes.map_ofNat_values bs, hbs, ← hback ds]
    rfl

/-- A text is read as the bytes whose text it is. -/
theorem decode_eq_ok_iff {s : String} {bs : Bytes} : decode s = .ok bs ↔ encode bs = s := by
  rw [decode_eq_ok_iff_rebase, encode_eq]
  constructor
  · rintro ⟨ds, hlt, rfl, hbs⟩
    rw [hbs, Radix.rebase_rebase (by decide) (by decide) hlt]
  · rintro rfl
    refine ⟨rebase 256 58 bs.values, Radix.lt_of_mem_padded (by decide), rfl, ?_⟩
    exact (Radix.rebase_rebase (by decide) (by decide) Bytes.lt_of_mem_values).symm

/-! ## What base 58 is -/

/-- The base 58 text of bytes: a `1` for each zero byte in front, and then the digits, most
significant first, of the number that the other bytes spell. -/
inductive Spells : String → Bytes → Prop where
  | mk {zeros : Nat} {ds : List Nat} {bs : Bytes} (hlt : ∀ d ∈ ds, d < 58)
    (hds : ds.head? ≠ some 0) (hbs : bs.head? ≠ some 0)
    (hnumber : Nat.ofDigits 58 ds.reverse = Nat.ofDigits 256 (bs.map UInt8.toNat).reverse) :
    Spells (String.ofList (List.replicate zeros '1' ++ ds.map digit)) (List.replicate zeros 0 ++ bs)

/-- What digits spell is what the library says that they do. -/
theorem value_eq_ofDigits (base : Nat) (ds : List Nat) : value base ds = Nat.ofDigits base ds := by
  induction ds with
  | nil => rfl
  | cons d ds ih => rw [Radix.value_cons, Nat.ofDigits_cons, ih]

/-- A text that spells bytes in base 58 is the one that is written for them. -/
theorem encode_of_spells {s : String} {bs : Bytes} (h : Spells s bs) : encode bs = s := by
  cases h with
  | @mk zeros ds bs hlt hds hbs hnumber =>
    have hzeros : Bytes.values (List.replicate zeros 0 ++ bs) =
        List.replicate zeros 0 ++ bs.values := by
      rw [Bytes.values, List.map_append, List.map_replicate]
      rfl
    have hhead : bs.values.head? ≠ some 0 := by
      cases bs with
      | nil => exact nofun
      | cons b bs => exact fun h => hbs (congrArg some (UInt8.toNat_inj.1 (Option.some.inj h)))
    have hvalue : value 256 bs.values.reverse = value 58 ds.reverse := by
      rw [value_eq_ofDigits, value_eq_ofDigits]
      exact hnumber.symm
    rw [encode_eq, hzeros, rebase, Radix.leadingZeros_replicate_append hhead,
      Radix.value_reverse_replicate_append, hvalue, padded,
      Radix.digits_value_reverse (by decide) hlt hds, List.reverse_reverse, ofDigits,
      List.map_append, List.map_replicate, digit_zero]

/-- Bytes are zeros and then bytes that do not start with one. -/
theorem exists_zeros (bs : Bytes) :
    ∃ (zeros : Nat) (body : Bytes), bs = List.replicate zeros 0 ++ body ∧ body.head? ≠ some 0 := by
  induction bs with
  | nil => exact ⟨0, [], rfl, nofun⟩
  | cons b bs ih =>
    by_cases hb : b = 0
    · obtain ⟨zeros, body, rfl, hbody⟩ := ih
      exact ⟨zeros + 1, body, by rw [hb]; rfl, hbody⟩
    · exact ⟨0, b :: bs, rfl, fun h => hb (Option.some.inj h)⟩

/-- Any bytes are spelled by some text. -/
theorem exists_spells (bs : Bytes) : ∃ s, Spells s bs := by
  obtain ⟨zeros, body, rfl, hbody⟩ := exists_zeros bs
  let ds := (digits 58 (value 256 body.values.reverse)).reverse
  have hlt : ∀ d ∈ ds, d < 58 := fun d hd =>
    Radix.digits_lt (by decide) (List.mem_reverse.1 hd)
  have hds : ds.head? ≠ some 0 := by
    rw [List.head?_reverse]
    exact Radix.getLast?_digits_ne (by decide)
  have hnumber : Nat.ofDigits 58 ds.reverse = Nat.ofDigits 256 body.values.reverse := by
    rw [← value_eq_ofDigits, ← value_eq_ofDigits, List.reverse_reverse,
      Radix.value_digits (by decide)]
  exact ⟨_, .mk hlt hds hbody hnumber⟩

/-- The text of bytes is the one in base 58. -/
theorem encode_eq_iff_spells {s : String} {bs : Bytes} : encode bs = s ↔ Spells s bs := by
  constructor
  · rintro rfl
    obtain ⟨s, hs⟩ := exists_spells bs
    rwa [encode_of_spells hs]
  · exact encode_of_spells

/-- Two zero bytes are two digits, and 255 is 4 · 58 + 23. -/
example : encode [0, 0, 255] = "115Q" := by cbv

end Base58

/-! ## Texts with a checksum -/

namespace Base58Check

/-- A text holds a payload if its bytes are the payload and the checksum of that. -/
theorem decode_eq_ok_iff_base58 {s : String} {payload : Bytes} :
    decode s = .ok payload ↔ Base58.decode s = .ok (payload ++ Hash.checksum payload) := by
  rw [decode, Except.bind_eq_ok_iff]
  constructor
  · rintro ⟨bytes, hbytes, h⟩
    rw [Except.mapError_eq_ok_iff] at hbytes
    simp only [List.splitAt_eq] at h
    split at h
    · cases h
    split at h
    · next hsum =>
      cases h
      have hchecksum : Hash.checksum _ = _ := eq_of_beq hsum
      rw [hchecksum, List.take_append_drop, hbytes]
    · cases h
  · intro h
    refine ⟨payload ++ Hash.checksum payload, Except.mapError_eq_ok_iff.2 h, ?_⟩
    have hsize : (payload ++ Hash.checksum payload).length = payload.length + Hash.checksumSize := by
      rw [List.length_append, Hash.length_checksum]
      rfl
    rw [if_neg (by omega), List.splitAt_eq, hsize, Nat.add_sub_cancel, List.take_left,
      List.drop_left]
    exact if_pos (beq_self_eq_true _)

/-- A text is read as the payload whose text it is. -/
theorem decode_eq_ok_iff {s : String} {payload : Bytes} :
    decode s = .ok payload ↔ encode payload = s := by
  rw [decode_eq_ok_iff_base58, Base58.decode_eq_ok_iff, encode]

/-- A payload is read back from its text, and from no other text: the one that base 58 has for it
and its checksum. -/
theorem payload_has_one_text (payload : Bytes) :
    decode (encode payload) = .ok payload ∧
    (∀ s, decode s = .ok payload ↔ encode payload = s) ∧
    (∃! s, decode s = .ok payload) ∧
    ∀ s, encode payload = s ↔ Base58.Spells s (payload ++ Hash.checksum payload) := by
  have hread : decode (encode payload) = .ok payload := decode_eq_ok_iff.2 rfl
  refine ⟨hread, fun s => decode_eq_ok_iff, ?_, fun s => Base58.encode_eq_iff_spells⟩
  exact ⟨encode payload, hread, fun s hs => (decode_eq_ok_iff.1 hs).symm⟩

end Base58Check

end LedgerClient
