import LedgerClient.Call.Plan
import LedgerClient.Proofs.Amount.Reading
import LedgerClient.Proofs.Ledger.Worth

/-!
# What is made of the texts of amounts

Fees, payments and unspent outputs are given as texts. Whichever of them a text is for, the amount
that is made of it is the number that it writes if its digits and decimals are few enough to be kept
(`Fixed8.ReadAs`, `Call.amount_texts`). A longer text is rounded before its decimals are counted, so
that it can be taken for an amount that it does not write (`Call.silently_rounded`). The loss is
small unless the text has a large exponent: a number with at most eight decimals is read as it is up
to exponents of 19, however it is written.
-/

namespace LedgerClient

namespace Fixed8

/-- The number that the text of an amount writes, blank characters at its ends aside. -/
def writtenIn (s : String) : ℚ := Decimal.written (Text.trimChars s.toList)

/-- The exponent that the text of an amount has. -/
def exponentIn (s : String) : ℤ := Decimal.exponent (Text.trimChars s.toList)

/-- The digits and decimals of the text of an amount are few enough to be kept. -/
def KeptIn (s : String) : Prop := Decimal.Kept (Text.trimChars s.toList)

/-- How a number of hundred-millionths relates to the text that it is read from. -/
structure ReadAs (s : String) (raw : ℤ) : Prop where
  /-- Where all digits are kept, it is the number that the text writes. -/
  exact : KeptIn s → writtenIn s * 10 ^ decimals = raw
  /-- Otherwise it is close to that number, unless the exponent is large. -/
  near : |writtenIn s * 10 ^ decimals - raw| ≤ 1 / 10 ^ 8 + 10 ^ (exponentIn s - 20)
  /-- A number of at most eight decimals is read as it is up to an exponent of 19. -/
  whole : (∃ n : ℤ, writtenIn s * 10 ^ decimals = n) → exponentIn s ≤ 19 →
    writtenIn s * 10 ^ decimals = raw

/-- Whole numbers that are less than one apart are the same. -/
theorem eq_of_near {n raw : ℤ} {loss : ℚ} (h : |(n : ℚ) - raw| ≤ loss) (hloss : loss < 1) :
    n = raw := by
  have hlt : |(n : ℚ) - raw| < 1 := h.trans_lt hloss
  rw [← Int.cast_sub, ← Int.cast_abs] at hlt
  exact Int.sub_eq_zero.1 (Int.abs_lt_one_iff.1 (by exact_mod_cast hlt))

/-- Between zero and one there is no whole number. -/
theorem not_whole {x : ℚ} (hpos : 0 < x) (hlt : x < 1) : ¬ ∃ n : ℤ, x = n := by
  rintro ⟨n, rfl⟩
  have hn : 0 < n := by exact_mod_cast hpos
  have hone : n < 1 := by exact_mod_cast hlt
  omega

/-- A decimal that is an amount is smaller than 10¹¹. -/
theorem abs_toRat_le {d : Decimal} {a : Fixed8} (h : d.toRat * 10 ^ decimals = a.raw) :
    |d.toRat| ≤ 10 ^ 11 := by
  have hraw : |(a.raw : ℚ)| ≤ 2 ^ 63 := by
    have hmin := a.min_le
    have hmax := a.lt_max
    have habs : |a.raw| ≤ 2 ^ 63 := abs_le.2 ⟨by omega, by omega⟩
    exact_mod_cast habs
  have hpow : (0 : ℚ) < 10 ^ decimals := by positivity
  rw [← h, abs_mul, abs_of_pos hpow, ← le_div_iff₀ hpow] at hraw
  refine hraw.trans ?_
  rw [decimals]
  norm_num

/-- What is read from a text and then taken as an amount. -/
theorem readAs_of_counts {s : String} {d : Decimal} {a : Fixed8}
    (h : Decimal.parse (Text.trim s) = .ok d) (ha : d.Counts a.raw) : ReadAs s a.raw := by
  have hchars : (Text.trim s).toList = Text.trimChars s.toList := String.toList_ofList
  have hraw := Decimal.counts_iff_toRat.1 ha
  have hnear : |writtenIn s * 10 ^ decimals - a.raw| ≤ 1 / 10 ^ 8 + 10 ^ (exponentIn s - 20) := by
    have hdecimal := Decimal.near_written_of_parse h (abs_toRat_le hraw)
    have hshift : exponentIn s - 20 = exponentIn s - Decimal.maxScale + (decimals : ℕ) := by
      simp only [Decimal.maxScale, decimals]
      omega
    have hpower : (10 : ℚ) ^ (exponentIn s - 20) =
        10 ^ (exponentIn s - Decimal.maxScale) * 10 ^ decimals := by
      rw [hshift, zpow_add₀ (by norm_num), zpow_natCast]
    rw [hchars, ← writtenIn, ← exponentIn] at hdecimal
    rw [← hraw, ← sub_mul, abs_mul, hpower, abs_of_pos (by positivity : (0 : ℚ) < 10 ^ decimals)]
    have hscaled := mul_le_mul_of_nonneg_right hdecimal
      (by positivity : (0 : ℚ) ≤ 10 ^ decimals)
    rw [add_mul] at hscaled
    refine hscaled.trans (add_le_add_left (le_of_eq ?_) _)
    rw [decimals]
    norm_num
  refine ⟨fun hkept => ?_, hnear, ?_⟩
  · rw [KeptIn, ← hchars] at hkept
    rw [← hraw, Decimal.toRat_of_kept h hkept, hchars, writtenIn]
  · rintro ⟨n, hn⟩ hexponent
    rw [hn] at hnear ⊢
    have hpower : (10 : ℚ) ^ (exponentIn s - 20) ≤ 10 ^ (-1 : ℤ) :=
      zpow_le_zpow_right₀ (by norm_num) (by omega)
    rw [eq_of_near hnear ?_]
    refine (add_le_add_right hpower _).trans_lt ?_
    norm_num

/-- An amount that is read from a text is what that text is read as. -/
theorem readAs_of_parse {s : String} {a : Fixed8} (h : parse s = .ok a) : ReadAs s a.raw := by
  rw [parse] at h
  split at h
  · cases h
  · next hd => exact readAs_of_counts hd (ofDecimal_eq_ok_iff.1 (Except.mapError_eq_ok_iff.1 h))

end Fixed8

namespace Ledger

/-- So is an amount that is read for some purpose, where only positive ones are taken. -/
theorem readAs_of_positiveAmount {s : String} {purpose : Purpose} {d : Decimal}
    {a : { a : Fixed8 // 0 < a.raw }} (hd : parseAmount s = .ok d)
    (ha : positiveAmount purpose d = .ok a) : Fixed8.ReadAs s a.1.raw :=
  Fixed8.readAs_of_counts (Except.mapError_eq_ok_iff.1 hd) (positiveAmount_eq_ok_iff.1 ha)

/-- The value of an unspent output is what its text is read as. -/
theorem Unspent.readAs_of_ofTexts {transaction asset value : String} {index : UInt16} {u : Unspent}
    (h : ofTexts transaction index asset value = .ok u) :
    ∃ raw, Fixed8.ReadAs value raw ∧ u.value.toRat * 10 ^ Fixed8.decimals = raw := by
  obtain ⟨_, -, h⟩ := Except.bind_eq_ok_iff.1 h
  obtain ⟨_, -, h⟩ := Except.bind_eq_ok_iff.1 h
  obtain ⟨d, hd, h⟩ := Except.bind_eq_ok_iff.1 h
  obtain ⟨a, ha, ⟨⟩⟩ := Except.bind_eq_ok_iff.1 h
  refine ⟨a.1.raw, readAs_of_positiveAmount hd ha, Decimal.counts_iff_toRat.1 ?_⟩
  exact Decimal.normalize_counts.2 (positiveAmount_eq_ok_iff.1 ha)

/-- The amount of a payment is what its text is read as. -/
theorem Output.readAs_of_ofTexts {asset value address : String} {o : Output}
    (h : ofTexts asset value address = .ok o) : Fixed8.ReadAs value o.amount.raw := by
  obtain ⟨_, -, h⟩ := Except.bind_eq_ok_iff.1 h
  obtain ⟨d, hd, h⟩ := Except.bind_eq_ok_iff.1 h
  obtain ⟨_, -, h⟩ := Except.bind_eq_ok_iff.1 h
  obtain ⟨a, ha, ⟨⟩⟩ := Except.bind_eq_ok_iff.1 h
  exact readAs_of_positiveAmount hd ha

end Ledger

namespace Call

/-- A fee is what its text is read as. -/
theorem Plan.readAs_of_parseFee {fee : Fee} {s : String} {a : Fixed8}
    (h : Plan.parseFee fee (some s) = .ok a) : Fixed8.ReadAs s a.raw := by
  rw [Plan.parseFee] at h
  split at h
  · cases h
  · next hparse =>
    split at h
    · cases h
    · cases h
      exact Fixed8.readAs_of_parse hparse

/-- Every amount that is given as a text is the number that the text writes, if its digits and
decimals are few enough to be kept; a number with more than eight decimals is refused then. Longer
texts are read with a loss that only a large exponent makes notable. -/
theorem amount_texts (s : String) :
    (∀ a, Fixed8.parse s = .ok a → Fixed8.ReadAs s a.raw) ∧
    (∀ fee a, Plan.parseFee fee (some s) = .ok a → Fixed8.ReadAs s a.raw) ∧
    (∀ transaction index asset u, Ledger.Unspent.ofTexts transaction index asset s = .ok u →
      ∃ raw, Fixed8.ReadAs s raw ∧ u.value.toRat * 10 ^ Fixed8.decimals = raw) ∧
    (∀ asset address o, Ledger.Output.ofTexts asset s address = .ok o →
      Fixed8.ReadAs s o.amount.raw) ∧
    (Fixed8.KeptIn s → (¬ ∃ n : ℤ, Fixed8.writtenIn s * 10 ^ Fixed8.decimals = n) →
      ∃ e, Fixed8.parse s = .error e) := by
  refine ⟨fun _ => Fixed8.readAs_of_parse, fun _ _ => Plan.readAs_of_parseFee,
    fun _ _ _ _ => Ledger.Unspent.readAs_of_ofTexts,
    fun _ _ _ => Ledger.Output.readAs_of_ofTexts, fun hkept hwhole => ?_⟩
  cases hparse : Fixed8.parse s with
  | error e => exact ⟨e, rfl⟩
  | ok a => exact absurd ⟨a.raw, (Fixed8.readAs_of_parse hparse).exact hkept⟩ hwhole

/-- Texts of one and a half are read as that, and one billionth is refused. -/
theorem amount_texts_sample :
    (∃ a, Fixed8.parse " 1.5" = .ok a ∧ (a.raw : ℚ) = 150000000) ∧
    (∃ a, Plan.parseFee .network (some " 1.5") = .ok a ∧ (a.raw : ℚ) = 150000000) ∧
    (∃ u, Ledger.Unspent.ofTexts Limits.governingAssetHex 0 Limits.feeAssetHex " 1.5" = .ok u ∧
      u.value.toRat * 10 ^ Fixed8.decimals = 150000000) ∧
    (∃ o, Ledger.Output.ofTexts Limits.feeAssetHex " 1.5" "AFmseVrdL9f9oyCzZefL9tG6UbvhPbdYzM" =
      .ok o ∧ (o.amount.raw : ℚ) = 150000000) ∧
    ∃ e, Fixed8.parse "0.000000001" = .error e := by
  obtain ⟨hparse, hfee, hunspent, houtput, -⟩ := amount_texts " 1.5"
  obtain ⟨-, -, -, -, hrefused⟩ := amount_texts "0.000000001"
  have hkept : Fixed8.KeptIn " 1.5" := ⟨by decide, by decide, by decide⟩
  have hwritten : Fixed8.writtenIn " 1.5" = (1 : ℤ) * ((15 : ℕ) / 10 ^ 1) * 10 ^ (0 : ℤ) :=
    Decimal.written_eq (by decide) (by decide) (by decide) (by decide)
  have hraw : ∀ {raw : ℤ}, Fixed8.ReadAs " 1.5" raw → (raw : ℚ) = 150000000 := by
    intro raw h
    rw [← h.exact hkept, hwritten, Fixed8.decimals]
    norm_num
  refine ⟨⟨_, rfl, hraw (hparse _ rfl)⟩, ⟨_, rfl, hraw (hfee .network _ rfl)⟩, ?_, ?_, ?_⟩
  · have hok : (Ledger.Unspent.ofTexts Limits.governingAssetHex 0 Limits.feeAssetHex " 1.5").isOk =
        true := by decide +kernel
    obtain ⟨u, hu⟩ := Except.exists_of_isOk hok
    obtain ⟨raw, hread, hvalue⟩ := hunspent _ _ _ _ hu
    exact ⟨u, hu, hvalue.trans (hraw hread)⟩
  · have hok : (Ledger.Output.ofTexts Limits.feeAssetHex " 1.5"
        "AFmseVrdL9f9oyCzZefL9tG6UbvhPbdYzM").isOk = true := by decide +kernel
    obtain ⟨o, ho⟩ := Except.exists_of_isOk hok
    exact ⟨o, ho, hraw (houtput _ _ _ ho)⟩
  · have hbillionth : Fixed8.writtenIn "0.000000001" =
        (1 : ℤ) * ((1 : ℕ) / 10 ^ 9) * 10 ^ (0 : ℤ) :=
      Decimal.written_eq (by decide) (by decide) (by decide) (by decide)
    refine hrefused ⟨by decide, by decide, by decide⟩ (Fixed8.not_whole ?_ ?_)
    · rw [hbillionth, Fixed8.decimals]
      norm_num
    · rw [hbillionth, Fixed8.decimals]
      norm_num

/-! ## Texts that are rounded -/

/-- A digit in the twenty-ninth decimal is lost, and the text is taken for nothing. -/
theorem silently_rounded :
    Fixed8.parse "0.00000000000000000000000000001" = .ok .zero ∧
    ¬ ∃ n : ℤ, Fixed8.writtenIn "0.00000000000000000000000000001" * 10 ^ Fixed8.decimals = n := by
  have hwritten : Fixed8.writtenIn "0.00000000000000000000000000001" =
      (1 : ℤ) * ((1 : ℕ) / 10 ^ 29) * 10 ^ (0 : ℤ) :=
    Decimal.written_eq (by decide) (by decide) (by decide) (by decide)
  refine ⟨rfl, Fixed8.not_whole ?_ ?_⟩
  · rw [hwritten, Fixed8.decimals]
    norm_num
  · rw [hwritten, Fixed8.decimals]
    norm_num

/-- A large exponent brings a rounded decimal in front: one half is read as one. -/
theorem half_read_as_one :
    Fixed8.parse "0.00000000000000000000000000005e28" = .ok (.ofWord 100000000) ∧
    Fixed8.writtenIn "0.00000000000000000000000000005e28" = 1 / 2 := by
  refine ⟨rfl, ?_⟩
  have hwritten : Fixed8.writtenIn "0.00000000000000000000000000005e28" =
      (1 : ℤ) * ((5 : ℕ) / 10 ^ 29) * 10 ^ (28 : ℤ) :=
    Decimal.written_eq (by decide) (by decide) (by decide) (by decide)
  rw [hwritten]
  norm_num

end Call

end LedgerClient
