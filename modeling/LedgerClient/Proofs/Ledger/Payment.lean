import LedgerClient.Proofs.Amount.Printing
import LedgerClient.Proofs.Ledger.Canonical
import LedgerClient.Proofs.Ledger.Sizes
import LedgerClient.Proofs.Ledger.Worth

/-!
# Payments of decimals

A payment is made of a decimal (`Output.ofParts`), which is converted to an amount; it is sent as
that amount, and the decimal that is read again is made of the amount. The three conversions agree:
the decimal of a payment is the one that it was made of but for zeros at the end of the fraction
(`Output.value_eq`), since a number has only one decimal without such zeros, and it converts to the
amount that is sent. So payments of the same number are the same, with the same bytes, however the
number was written (`Output.pays_exactly`).
-/

namespace LedgerClient.Ledger

open Wire (Form)

namespace Output

variable {asset : Hash256} {d : Decimal} {recipient : Hash160} {o o' : Output}

/-- A payment is made of a number of hundred-millionths that is positive and fits 63 bits. -/
theorem exists_ofParts_iff : (∃ o, ofParts asset d recipient = .ok o) ↔
    0 < d.toRat ∧ ∃ n : ℤ, d.toRat * 10 ^ Fixed8.decimals = n ∧ n ≤ 2 ^ 63 - 1 := by
  constructor
  · rintro ⟨o, ho⟩
    obtain ⟨-, hcounts, -⟩ := ofParts_eq_ok_iff.1 ho
    exact ⟨hcounts.toRat_pos_iff.2 o.amount_pos, o.amount.raw, Decimal.counts_iff_toRat.1 hcounts,
      Int.le_sub_one_of_lt o.amount.lt_max⟩
  · rintro ⟨hpos, n, hn, hmax⟩
    have hcounts := Decimal.counts_iff_toRat.2 hn
    have hn_pos := hcounts.toRat_pos_iff.1 hpos
    let amount : Fixed8 := ⟨n, by omega, by omega⟩
    exact ⟨⟨asset, amount, recipient, hn_pos⟩, ofParts_eq_ok_iff.2 ⟨rfl, hcounts, rfl⟩⟩

/-- The decimal of a payment is the one that it was made of, without zeros at the end. -/
theorem value_eq (h : ofParts asset d recipient = .ok o) : o.value = d.normalize := by
  obtain ⟨-, hcounts, -⟩ := ofParts_eq_ok_iff.1 h
  have hunits : d.units = _ := hcounts
  exact Decimal.normalize_eq_normalize_iff.2 (Eq.symm hunits)

/-- A payment is made of its own parts. -/
theorem ofParts_self (o : Output) : ofParts o.asset o.value o.recipient = .ok o :=
  ofParts_eq_ok_iff.2 ⟨rfl, o.counts_value, rfl⟩

/-- A payment is the asset, the number and the recipient. -/
theorem eq_iff : o = o' ↔
    o.asset = o'.asset ∧ o.value.toRat = o'.value.toRat ∧ o.recipient = o'.recipient := by
  constructor
  · rintro rfl
    exact ⟨rfl, rfl, rfl⟩
  · rintro ⟨hasset, hvalue, hrecipient⟩
    have hcounts : o.value.Counts o'.amount.raw := by
      rw [Decimal.counts_iff_toRat, hvalue, ← Decimal.counts_iff_toRat]
      exact o'.counts_value
    have hmade := ofParts_eq_ok_iff.2 ⟨hasset.symm, hcounts, hrecipient.symm⟩
    rw [ofParts_self] at hmade
    exact Except.ok.inj hmade

/-- What is written for a payment is read as that payment. -/
theorem run_encode (o : Output) (subject : String) :
    (Form.decode : Wire.Decoder Output).run subject o.encode = .ok o :=
  (decides_output o).run subject

/-- So a payment is told by its bytes. -/
theorem encode_injective (h : o.encode = o'.encode) : o = o' := by
  have hrun := o.run_encode "output"
  rw [h, o'.run_encode] at hrun
  exact (Except.ok.inj hrun).symm

/-- A payment is read from its own bytes only: it takes as many to read any. -/
theorem eq_encode_of_run {subject : String} {bs : Bytes}
    (h : (Form.decode : Wire.Decoder Output).run subject bs = .ok o) : bs = o.encode := by
  obtain ⟨_, hcondensed, rfl⟩ := restates_output.of_run h
  have hle := takesAtMost_output.length_le h
  have hlength := Nat.le_antisymm hcondensed.length_le (hle.trans_eq o.length_encode_eq.symm)
  exact (hcondensed.eq_of_length_eq hlength).symm

/-- Payments are of the positive amounts of the ledger, and their bytes are those of the number that
is paid; `subject` names what is read. -/
structure PaysExactly (subject : String) : Prop where
  /-- A payment is made of a number of hundred-millionths that is positive and fits 63 bits. -/
  made_iff {asset : Hash256} {d : Decimal} {recipient : Hash160} :
    (∃ o, ofParts asset d recipient = .ok o) ↔
      0 < d.toRat ∧ ∃ n : ℤ, d.toRat * 10 ^ Fixed8.decimals = n ∧ n ≤ 2 ^ 63 - 1
  /-- What is made has the parts that it was made of, but for zeros at the end of the decimal. -/
  parts_of_made {asset : Hash256} {d : Decimal} {recipient : Hash160} {o : Output} :
    ofParts asset d recipient = .ok o →
      o.asset = asset ∧ o.value = d.normalize ∧ o.value.toRat = d.toRat ∧ o.recipient = recipient
  /-- Every payment can be sent, as the amount that its decimal converts to, and is read back. -/
  reads_sent (o : Output) : Fixed8.ofDecimal o.value = .ok o.amount ∧
    ∃ bs, Form.encode o = .ok bs ∧ (Form.decode : Wire.Decoder Output).run subject bs = .ok o
  /-- What is read can be made of its parts, and is sent as it was read. -/
  makes_read {bs : Bytes} {o : Output} : (Form.decode : Wire.Decoder Output).run subject bs = .ok o →
    ofParts o.asset o.value o.recipient = .ok o ∧ Form.encode o = .ok bs
  /-- Payments are the same if the asset, the number and the recipient are. -/
  eq_iff {o o' : Output} : o = o' ↔
    o.asset = o'.asset ∧ o.value.toRat = o'.value.toRat ∧ o.recipient = o'.recipient
  /-- Payments are the same if their bytes are. -/
  eq_iff_encode {o o' : Output} : o = o' ↔ Form.encode o = Form.encode o'
  /-- However the number is written, the bytes are the same. -/
  encode_eq_iff {asset asset' : Hash256} {d d' : Decimal} {recipient recipient' : Hash160}
    {o o' : Output} : ofParts asset d recipient = .ok o → ofParts asset' d' recipient' = .ok o' →
      (Form.encode o = Form.encode o' ↔
        asset = asset' ∧ d.toRat = d'.toRat ∧ recipient = recipient')

/-- Payments are the same if the same is sent of them. -/
theorem eq_iff_encode : o = o' ↔ Form.encode o = Form.encode o' := by
  constructor
  · rintro rfl
    rfl
  · exact fun h => encode_injective (Except.ok.inj h)

/-- A payment has the asset and the recipient that it was made of, and their number. -/
theorem parts_of_made (h : ofParts asset d recipient = .ok o) : o.asset = asset ∧
    o.value = d.normalize ∧ o.value.toRat = d.toRat ∧ o.recipient = recipient := by
  obtain ⟨hasset, -, hrecipient⟩ := ofParts_eq_ok_iff.1 h
  have hvalue := value_eq h
  have hnumber : o.value.toRat = d.toRat := by
    rw [← Decimal.units_eq_iff_toRat, hvalue, Decimal.units_normalize]
  exact ⟨hasset, hvalue, hnumber, hrecipient⟩

/-- Payments are made of exactly the positive amounts of the ledger, are read as they are sent, and
are the same if their assets, numbers and recipients are, however the numbers were written. -/
theorem pays_exactly (subject : String) : PaysExactly subject where
  made_iff := exists_ofParts_iff
  parts_of_made := parts_of_made
  reads_sent o := ⟨Fixed8.ofDecimal_toDecimal _, o.encode, rfl, o.run_encode subject⟩
  makes_read h := ⟨ofParts_self _, congrArg Except.ok (eq_encode_of_run h).symm⟩
  eq_iff := eq_iff
  eq_iff_encode := eq_iff_encode
  encode_eq_iff h h' := by
    obtain ⟨rfl, -, hnumber, rfl⟩ := parts_of_made h
    obtain ⟨rfl, -, hnumber', rfl⟩ := parts_of_made h'
    rw [← eq_iff_encode, eq_iff, hnumber, hnumber']

/-- One and a half is paid in the same bytes with one decimal and with two; the largest amount can
be paid, and the next one cannot. -/
theorem pays_exactly_sample :
    (∃ o o' : Output, ofParts .zero ⟨15, 1, by decide, by decide⟩ .zero = .ok o ∧
      ofParts .zero ⟨150, 2, by decide, by decide⟩ .zero = .ok o' ∧
        Form.encode o = Form.encode o') ∧
    (∃ o, ofParts .zero ⟨2 ^ 63 - 1, 8, by decide, by decide⟩ .zero = .ok o) ∧
    ¬ ∃ o, ofParts .zero ⟨2 ^ 63, 8, by decide, by decide⟩ .zero = .ok o := by
  have hpays := pays_exactly "output"
  refine ⟨?_, ?_, ?_⟩
  · obtain ⟨o, ho⟩ : ∃ o, ofParts .zero ⟨15, 1, by decide, by decide⟩ .zero = .ok o := by
      refine hpays.made_iff.2 ⟨?_, 150000000, ?_, by decide⟩ <;>
        norm_num [Decimal.toRat, Fixed8.decimals]
    obtain ⟨o', ho'⟩ : ∃ o, ofParts .zero ⟨150, 2, by decide, by decide⟩ .zero = .ok o := by
      refine hpays.made_iff.2 ⟨?_, 150000000, ?_, by decide⟩ <;>
        norm_num [Decimal.toRat, Fixed8.decimals]
    refine ⟨o, o', ho, ho', (hpays.encode_eq_iff ho ho').2 ⟨rfl, ?_, rfl⟩⟩
    norm_num [Decimal.toRat]
  · refine hpays.made_iff.2 ⟨?_, 2 ^ 63 - 1, ?_, Int.le_refl _⟩ <;>
      norm_num [Decimal.toRat, Fixed8.decimals]
  · rw [hpays.made_iff]
    rintro ⟨-, n, hn, hmax⟩
    have hlarge : (n : ℚ) = (2 ^ 63 : ℤ) := by
      rw [← hn]
      norm_num [Decimal.toRat, Fixed8.decimals]
    rw [Int.cast_inj] at hlarge
    omega

end Output

end LedgerClient.Ledger
