import LedgerClient.Amount.Fixed8
import Mathlib.Tactic.Linarith
import Mathlib.Tactic.Ring

/-!
# Decimals as counts of hundred-millionths

`Decimal.Counts d n` says that the decimal `d`, at whatever scale, stands for `n`
hundred-millionths. On such decimals the arithmetic is that of the integers: comparing is comparing
counts, and a sum or difference whose count fits the mantissa is exact (`Counts.add?`,
`Counts.sub?`). The second is not immediate, since the common scale of two summands can be so large
that the mantissa of the sum does not fit there; the decimals that `Decimal.fit` then drops are
zeros. More generally a sum is exact if it is a decimal (`add?_of_units`). Taking a smaller number
off a larger one always gives a decimal, exact or not (`exists_sub?`).

The decimals that are amounts of the ledger are exactly those that count something in range
(`Fixed8.ofDecimal_eq_ok_iff`). The conversion multiplies, and where the product does not fit, what
is left of it after dropping decimals is still too large for an amount
(`Fixed8.bind_ofRaw?_times?`).
-/

namespace LedgerClient

namespace Decimal

/-- `d` stands for `n` hundred-millionths. -/
def Counts (d : Decimal) (n : Int) : Prop := d.units = n * 10 ^ (maxScale - Fixed8.decimals)

/-- A decimal stands for one number of hundred-millionths only. -/
theorem Counts.unique {d : Decimal} {m n : Int} (hm : d.Counts m) (hn : d.Counts n) : m = n :=
  Int.eq_of_mul_eq_mul_right (by decide) (hm.symm.trans hn)

@[simp] theorem units_zero : zero.units = 0 := rfl

/-- Zero is no hundred-millionth. -/
theorem counts_zero : zero.Counts 0 := rfl

/-- The hundred-millionths of a decimal, less the fraction of one. -/
def count (d : Decimal) : Int := d.units / 10 ^ (maxScale - Fixed8.decimals)

/-- A decimal without a fraction of a hundred-millionth has the count that it stands for. -/
theorem Counts.count_eq {d : Decimal} {n : Int} (h : d.Counts n) : d.count = n := by
  rw [count, h, Int.mul_ediv_cancel _ (by decide)]

/-- Such a decimal stands for its own count. -/
theorem Counts.count {d : Decimal} {n : Int} (h : d.Counts n) : d.Counts d.count := by
  rwa [h.count_eq]

/-- A decimal that counts no less than zero is not negative. -/
theorem Counts.units_nonneg {d : Decimal} {n : Int} (h : d.Counts n) (hn : 0 ≤ n) :
    0 ≤ d.units := by
  rw [h]
  exact Int.mul_nonneg hn (by decide)

/-! ## Comparing -/

/-- Decimals are compared as numbers, whatever their scales. -/
theorem le_iff {a b : Decimal} : a.le b = true ↔ a.units ≤ b.units := decide_eq_true_iff

/-- A decimal is negative as a number if it has a sign. -/
theorem isNegative_iff {d : Decimal} : d.isNegative = true ↔ d.units < 0 := by
  have hunit : (0 : Int) < 10 ^ (maxScale - d.scale) := Int.pow_pos (by decide)
  rw [isNegative, decide_eq_true_eq, units]
  constructor
  · intro h
    exact Int.mul_neg_of_neg_of_pos h hunit
  · intro h
    by_contra hnonneg
    have := Int.mul_nonneg (Int.not_lt.1 hnonneg) (Int.le_of_lt hunit)
    omega

/-- A positive mantissa stands for a positive number. -/
theorem units_pos {d : Decimal} (h : 0 < d.mantissa) : 0 < d.units :=
  Int.mul_pos h (Int.pow_pos (by decide))

/-- The order of decimals is that of their counts. -/
theorem Counts.le_iff {a b : Decimal} {m n : Int} (ha : a.Counts m) (hb : b.Counts n) :
    a.le b = true ↔ m ≤ n := by
  rw [Decimal.le_iff, ha, hb]
  exact Int.mul_le_mul_right (by decide)

/-- The mantissa of a decimal has the sign of its count. -/
theorem Counts.mantissa_pos_iff {d : Decimal} {n : Int} (h : d.Counts n) :
    0 < d.mantissa ↔ 0 < n := by
  have hu : d.mantissa * 10 ^ (maxScale - d.scale) = n * 10 ^ (maxScale - Fixed8.decimals) := h
  have hs : (0 : Int) < 10 ^ (maxScale - d.scale) := Int.pow_pos (by decide)
  rw [← mul_pos_iff_of_pos_right hs, hu, mul_pos_iff_of_pos_right (by decide)]

/-- A decimal is zero exactly if its count is. -/
theorem Counts.isZero_iff {d : Decimal} {n : Int} (h : d.Counts n) : d.isZero = true ↔ n = 0 := by
  rw [isZero, beq_iff_eq, ← units_eq_zero_iff, h, Int.mul_eq_zero]
  exact or_iff_left (by decide)

/-- A decimal is negative exactly if its count is. -/
theorem Counts.isNegative_iff {d : Decimal} {n : Int} (h : d.Counts n) :
    d.isNegative = true ↔ n < 0 := by
  have h₀ := h.isZero_iff
  have hp := h.mantissa_pos_iff
  simp only [isZero, beq_iff_eq] at h₀
  simp only [isNegative, decide_eq_true_eq]
  omega

/-- No count from zero on is taken for a negative number. -/
theorem Counts.not_isNegative {d : Decimal} {n : Int} (h : d.Counts n) (hn : 0 ≤ n) :
    ¬ d.isNegative = true := by
  rw [h.isNegative_iff]
  omega

@[simp] theorem units_neg (d : Decimal) : d.neg.units = -d.units := Int.neg_mul _ _

/-- With the other sign a decimal stands for the other count. -/
theorem Counts.neg {d : Decimal} {n : Int} (h : d.Counts n) : d.neg.Counts (-n) := by
  rw [Counts, units_neg, h, Int.neg_mul]

/-! ## Sums and differences -/

/-- A quotient without remainder is not rounded. -/
theorem shiftHalfEven_mul_pow (q k : Nat) : shiftHalfEven (q * 10 ^ k) k = q := by
  have hk : 0 < 10 ^ k := Nat.pow_pos (by decide)
  simp only [shiftHalfEven, Nat.mul_mod_left, Nat.mul_div_cancel q hk, Nat.mul_zero]
  rw [if_neg (by omega), if_neg (by omega)]

/-- Dropping zeros from a mantissa takes the quotient. -/
theorem sign_mul_shiftHalfEven (q : Int) (k : Nat) :
    (q * 10 ^ k).sign * shiftHalfEven (q * 10 ^ k).natAbs k = q := by
  have hk : (0 : Int) < 10 ^ k := Int.pow_pos (by decide)
  have habs : (q * 10 ^ k).natAbs = q.natAbs * 10 ^ k := by
    rw [Int.natAbs_mul, Int.natAbs_pow]
    rfl
  rw [habs, shiftHalfEven_mul_pow, Int.sign_mul, Int.sign_eq_one_of_pos hk, Int.mul_one,
    Int.sign_mul_natAbs]

/-- A mantissa and a scale within bounds make a decimal. -/
theorem mk?_eq_some {mantissa : Int} {scale : Nat} (hm : mantissa.natAbs ≤ maxMantissa)
    (hs : scale ≤ maxScale) : mk? mantissa scale = some ⟨mantissa, scale, hm, hs⟩ :=
  dif_pos ⟨hm, hs⟩

/-- A mantissa beyond the bound makes none. -/
theorem mk?_eq_none {mantissa : Int} {scale : Nat} (hm : ¬ mantissa.natAbs ≤ maxMantissa) :
    mk? mantissa scale = none :=
  dif_neg fun h => hm h.1

/-- A mantissa at a scale beyond the places of the same number ends in zeros; at a smaller scale it
is a part of the number. -/
theorem mantissa_mul_of_units {mantissa n : Int} {scale places : Nat} (hs : scale ≤ maxScale)
    (hp : places ≤ maxScale)
    (hu : mantissa * 10 ^ (maxScale - scale) = n * 10 ^ (maxScale - places)) :
    mantissa * 10 ^ (places - scale) = n * 10 ^ (scale - places) := by
  rcases Nat.le_total scale places with h | h
  · have hexp : maxScale - scale = (places - scale) + (maxScale - places) := by omega
    rw [hexp, pow_add, ← Int.mul_assoc] at hu
    rw [Nat.sub_eq_zero_of_le h, pow_zero, Int.mul_one]
    exact Int.eq_of_mul_eq_mul_right (pow_ne_zero _ (by decide)) hu
  · have hexp : maxScale - places = (scale - places) + (maxScale - scale) := by omega
    rw [hexp, pow_add, ← Int.mul_assoc] at hu
    rw [Nat.sub_eq_zero_of_le h, pow_zero, Int.mul_one]
    exact Int.eq_of_mul_eq_mul_right (pow_ne_zero _ (by decide)) hu

/-- At these places or fewer a mantissa is not larger than the number. -/
theorem natAbs_le_of_units {mantissa n : Int} {scale places : Nat} (hs : scale ≤ places)
    (hp : places ≤ maxScale)
    (hu : mantissa * 10 ^ (maxScale - scale) = n * 10 ^ (maxScale - places)) :
    mantissa.natAbs ≤ n.natAbs := by
  have hm := mantissa_mul_of_units (Nat.le_trans hs hp) hp hu
  rw [Nat.sub_eq_zero_of_le hs, pow_zero, Int.mul_one] at hm
  rw [← hm, Int.natAbs_mul]
  exact Nat.le_mul_of_pos_right _ (Int.natAbs_pos.2 (pow_ne_zero _ (by decide)))

/-- As long as the places stay, what is dropped are zeros, and the number stays the same. -/
theorem cut_units {mantissa n : Int} {scale places dropped : Nat} (hs : scale ≤ maxScale)
    (hp : places ≤ maxScale)
    (hu : mantissa * 10 ^ (maxScale - scale) = n * 10 ^ (maxScale - places))
    (hd : dropped ≤ scale - places) :
    mantissa.sign * shiftHalfEven mantissa.natAbs dropped * 10 ^ (maxScale - (scale - dropped)) =
      n * 10 ^ (maxScale - places) := by
  have hm := mantissa_mul_of_units hs hp hu
  obtain ⟨q, rfl⟩ : ∃ q, mantissa = q * 10 ^ dropped := by
    rcases Nat.le_total scale places with h | h
    · exact ⟨mantissa, by rw [show dropped = 0 by omega, pow_zero, Int.mul_one]⟩
    · refine ⟨n * 10 ^ (scale - places - dropped), ?_⟩
      rw [Int.mul_assoc, ← pow_add, Nat.sub_add_cancel hd, ← hm, Nat.sub_eq_zero_of_le h, pow_zero,
        Int.mul_one]
  rw [sign_mul_shiftHalfEven, ← hu, Int.mul_assoc, ← pow_add]
  congr 2
  omega

/-- A number that fits the mantissa at some places is kept exactly, however large the scale at which
it is given: at these places at the latest the mantissa fits, and up to there only zeros are
dropped. -/
theorem fitFrom_units {mantissa n : Int} {scale places : Nat} (hs : scale ≤ maxScale)
    (hp : places ≤ maxScale)
    (hu : mantissa * 10 ^ (maxScale - scale) = n * 10 ^ (maxScale - places))
    (hn : n.natAbs ≤ maxMantissa) (more dropped : Nat) (hscale : dropped + more = scale)
    (hd : dropped ≤ scale - places) :
    ∃ d, fitFrom mantissa scale dropped more = some d ∧
      d.units = n * 10 ^ (maxScale - places) := by
  have hcut := cut_units hs hp hu hd
  have hkept : scale - dropped ≤ maxScale := by omega
  induction more generalizing dropped with
  | zero =>
    have hfits := Nat.le_trans (natAbs_le_of_units (by omega) hp hcut) hn
    exact ⟨⟨_, _, hfits, hkept⟩, by rw [fitFrom, mk?_eq_some hfits hkept], hcut⟩
  | succ more ih =>
    rw [fitFrom]
    by_cases hfits : (mantissa.sign * shiftHalfEven mantissa.natAbs dropped).natAbs ≤ maxMantissa
    · exact ⟨⟨_, _, hfits, hkept⟩, by rw [mk?_eq_some hfits hkept], hcut⟩
    · -- What does not fit has more places than these, so that one more can be dropped.
      have hmore : dropped + 1 ≤ scale - places := by
        by_contra hlast
        exact hfits (Nat.le_trans (natAbs_le_of_units (by omega) hp hcut) hn)
      rw [mk?_eq_none hfits]
      exact ih (dropped + 1) (by omega) hmore (cut_units hs hp hu hmore) (by omega)

/-- A mantissa at a scale is brought within bounds without loss, if its number is a decimal. -/
theorem fit_units {mantissa : Int} {scale : Nat} {c : Decimal} (hs : scale ≤ maxScale)
    (hu : mantissa * 10 ^ (maxScale - scale) = c.units) :
    ∃ d, fit mantissa scale = some d ∧ d.units = c.units :=
  fitFrom_units hs c.scale_le hu c.mantissa_le scale 0 (Nat.zero_add _) (Nat.zero_le _)

/-- Moving a decimal to a larger scale keeps its units. -/
theorem mantissaAt_mul {d : Decimal} {scale : Nat} (h : d.scale ≤ scale) (hs : scale ≤ maxScale) :
    d.mantissaAt scale * 10 ^ (maxScale - scale) = d.units := by
  rw [mantissaAt, units, Int.mul_assoc, ← pow_add]
  congr 2
  omega

/-- A sum that is a decimal is exact. -/
theorem add?_of_units {a b c : Decimal} (h : c.units = a.units + b.units) :
    ∃ d, a.add? b = some d ∧ d.units = c.units := by
  have hzero {d : Decimal} (hd : d.isZero = true) : d.units = 0 := by
    rw [isZero, beq_iff_eq] at hd
    exact units_eq_zero_iff.2 hd
  rw [add?]
  split
  · next ha =>
    rw [hzero ha, Int.zero_add] at h
    exact ⟨b, rfl, h.symm⟩
  split
  · next hb =>
    rw [hzero hb, Int.add_zero] at h
    exact ⟨a, rfl, h.symm⟩
  · have hs : max a.scale b.scale ≤ maxScale := Nat.max_le.2 ⟨a.scale_le, b.scale_le⟩
    refine fit_units hs ?_
    rw [h, Int.add_mul, mantissaAt_mul (Nat.le_max_left _ _) hs,
      mantissaAt_mul (Nat.le_max_right _ _) hs]

/-- A sum whose count fits the mantissa is exact. -/
theorem Counts.add? {a b : Decimal} {m n : Int} (ha : a.Counts m) (hb : b.Counts n)
    (hfits : (m + n).natAbs ≤ maxMantissa) : ∃ c, a.add? b = some c ∧ c.Counts (m + n) := by
  refine add?_of_units (c := ⟨m + n, Fixed8.decimals, hfits, by decide⟩) ?_
  rw [ha, hb, ← Int.add_mul]
  rfl

/-- A difference whose count fits the mantissa is exact. -/
theorem Counts.sub? {a b : Decimal} {m n : Int} (ha : a.Counts m) (hb : b.Counts n)
    (hfits : (m - n).natAbs ≤ maxMantissa) : ∃ c, a.sub? b = some c ∧ c.Counts (m - n) :=
  ha.add? hb.neg hfits

/-! ## Differences that need not be exact -/

/-- Rounding does not go beyond a whole number that is not exceeded before. -/
theorem shiftHalfEven_le {n k whole : Nat} (h : n ≤ whole * 10 ^ k) : shiftHalfEven n k ≤ whole := by
  have hk : 0 < 10 ^ k := Nat.pow_pos (by decide)
  have hsplit := Nat.div_add_mod n (10 ^ k)
  have hquotient : n / 10 ^ k ≤ whole := Nat.div_le_of_le_mul (by rwa [Nat.mul_comm])
  rcases Nat.lt_or_eq_of_le hquotient with hlt | heq
  · rw [shiftHalfEven]
    split
    · exact hlt
    split <;> omega
  · -- Nothing is left over the whole number, so that nothing is rounded up.
    rw [heq, Nat.mul_comm] at hsplit
    have hrest : n % 10 ^ k = 0 := by omega
    rw [shiftHalfEven, hrest, heq]
    simp only [Nat.mul_zero]
    rw [if_neg (by omega), if_neg (by omega)]

/-- A mantissa fits once all decimals are dropped, if its whole part does. -/
theorem exists_fitFrom {mantissa : Int} {scale : Nat} (hs : scale ≤ maxScale)
    (hwhole : mantissa.natAbs ≤ maxMantissa * 10 ^ scale) (more dropped : Nat)
    (hscale : dropped + more = scale) : ∃ d, fitFrom mantissa scale dropped more = some d := by
  induction more generalizing dropped with
  | zero =>
    obtain rfl : dropped = scale := hscale
    have hfits : (mantissa.sign * shiftHalfEven mantissa.natAbs dropped).natAbs ≤ maxMantissa := by
      have hsign : mantissa.sign.natAbs ≤ 1 := by
        obtain h | h | h := Int.sign_trichotomy mantissa <;> simp [h]
      rw [Int.natAbs_mul, Int.natAbs_natCast]
      exact (Nat.mul_le_mul hsign (shiftHalfEven_le hwhole)).trans_eq (Nat.one_mul _)
    exact ⟨_, by rw [fitFrom, mk?_eq_some hfits (by omega)]⟩
  | succ more ih =>
    rw [fitFrom]
    split
    · exact ⟨_, rfl⟩
    · exact ih (dropped + 1) (by omega)

/-- A number of the same sign that is not larger can be taken off, though decimals may be lost. -/
theorem exists_sub? {a b : Decimal} (hnonneg : 0 ≤ b.units) (hle : b.units ≤ a.units) :
    ∃ c, a.sub? b = some c := by
  rw [sub?, add?]
  split
  · exact ⟨_, rfl⟩
  split
  · exact ⟨_, rfl⟩
  · have hs : max a.scale b.neg.scale ≤ maxScale := Nat.max_le.2 ⟨a.scale_le, b.neg.scale_le⟩
    have hunit : (0 : Int) < 10 ^ (maxScale - max a.scale b.neg.scale) := Int.pow_pos (by decide)
    have hminuend := mantissaAt_mul (Nat.le_max_left a.scale b.neg.scale) hs
    have hsubtrahend := mantissaAt_mul (Nat.le_max_right a.scale b.neg.scale) hs
    rw [units_neg] at hsubtrahend
    -- The difference lies between zero and what it is taken from, which fits.
    have hlow : 0 ≤ a.mantissaAt (max a.scale b.neg.scale) +
        b.neg.mantissaAt (max a.scale b.neg.scale) := by
      refine Int.le_of_mul_le_mul_right ?_ hunit
      rw [Int.zero_mul, Int.add_mul, hminuend, hsubtrahend]
      omega
    have hhigh : b.neg.mantissaAt (max a.scale b.neg.scale) ≤ 0 := by
      refine Int.le_of_mul_le_mul_right ?_ hunit
      rw [Int.zero_mul, hsubtrahend]
      omega
    have hfits : (a.mantissaAt (max a.scale b.neg.scale)).natAbs ≤
        maxMantissa * 10 ^ max a.scale b.neg.scale := by
      rw [mantissaAt, Int.natAbs_mul, Int.natAbs_pow]
      exact Nat.mul_le_mul a.mantissa_le (Nat.pow_le_pow_right (by decide) (Nat.sub_le ..))
    exact exists_fitFrom hs (by omega) _ 0 (Nat.zero_add _)

/-! ## What fitting leaves of the whole part -/

/-- Nothing is rounded where no decimal is dropped. -/
theorem shiftHalfEven_zero (n : Nat) : shiftHalfEven n 0 = n := by
  have h := shiftHalfEven_mul_pow n 0
  rwa [pow_zero, Nat.mul_one] at h

/-- A mantissa within bounds is kept as it is. -/
theorem fit_of_natAbs_le {mantissa : Int} {scale : Nat} (hm : mantissa.natAbs ≤ maxMantissa)
    (hs : scale ≤ maxScale) : fit mantissa scale = some ⟨mantissa, scale, hm, hs⟩ := by
  have hcut : mantissa.sign * shiftHalfEven mantissa.natAbs 0 = mantissa := by
    rw [shiftHalfEven_zero, Int.sign_mul_natAbs]
  rw [fit]
  cases scale with
  | zero => rw [fitFrom, hcut, mk?_eq_some hm hs]
  | succ scale => rw [fitFrom, hcut, Nat.sub_zero, mk?_eq_some hm hs]

/-- Rounding half to even never goes below the whole quotient. -/
theorem div_le_shiftHalfEven (n k : Nat) : n / 10 ^ k ≤ shiftHalfEven n k := by
  rw [shiftHalfEven]
  split
  · exact Nat.le_succ _
  split
  · exact Nat.le_add_right _ _
  · exact Nat.le_refl _

/-- The sign that is put back after rounding does not change the size. -/
theorem natAbs_sign_mul_shiftHalfEven (m : Int) (k : Nat) :
    (m.sign * shiftHalfEven m.natAbs k).natAbs = shiftHalfEven m.natAbs k := by
  rw [Int.natAbs_mul, Int.natAbs_natCast]
  by_cases hm : m = 0
  · have hzero := shiftHalfEven_mul_pow 0 k
    rw [Nat.zero_mul] at hzero
    rw [hm, Int.natAbs_zero, hzero, Nat.mul_zero]
  · rw [Int.natAbs_sign_of_ne_zero hm, Nat.one_mul]

/-- Rounding off decimals leaves at least the whole part. -/
theorem natAbs_wholePart_of_fitFrom {mantissa : Int} {scale dropped more : Nat} {d : Decimal}
    (hscale : dropped + more = scale) (h : fitFrom mantissa scale dropped more = some d) :
    mantissa.natAbs / 10 ^ scale ≤ d.wholePart.natAbs := by
  have hcut : ∀ {dropped : Nat}, dropped ≤ scale →
      mk? (mantissa.sign * shiftHalfEven mantissa.natAbs dropped) (scale - dropped) = some d →
      mantissa.natAbs / 10 ^ scale ≤ d.wholePart.natAbs := by
    intro dropped hdropped hmk
    obtain ⟨_, ⟨⟩⟩ := Option.dite_none_right_eq_some.1 hmk
    have hdiv := Nat.div_le_div_right (c := 10 ^ (scale - dropped))
      (div_le_shiftHalfEven mantissa.natAbs dropped)
    rw [Nat.div_div_eq_div_mul, ← pow_add, Nat.add_sub_cancel' hdropped] at hdiv
    rw [wholePart, Int.natAbs_tdiv, Int.natAbs_pow, natAbs_sign_mul_shiftHalfEven]
    exact hdiv
  induction more generalizing dropped with
  | zero => exact hcut (by omega) h
  | succ more ih =>
    rw [fitFrom] at h
    split at h
    · next hmk => exact hcut (by omega) (hmk.trans h)
    · exact ih (by omega) h

/-- A number that is brought within bounds keeps at least its whole part. -/
theorem natAbs_wholePart_of_fit {mantissa : Int} {scale : Nat} {d : Decimal}
    (h : fit mantissa scale = some d) : mantissa.natAbs / 10 ^ scale ≤ d.wholePart.natAbs :=
  natAbs_wholePart_of_fitFrom (Nat.zero_add _) h

/-! ## Sums of positive numbers -/

/-- A positive number that is brought within bounds stays positive: decimals are dropped only while
the digits in front of them are too many, and so some digits are left. -/
theorem mantissa_pos_of_fitFrom {mantissa : Int} {scale dropped more : Nat} {d : Decimal}
    (hs : scale ≤ maxScale) (hpos : 0 < mantissa)
    (hleft : 0 < shiftHalfEven mantissa.natAbs dropped)
    (h : fitFrom mantissa scale dropped more = some d) : 0 < d.mantissa := by
  have hcut : ∀ {dropped : Nat}, 0 < shiftHalfEven mantissa.natAbs dropped →
      mk? (mantissa.sign * shiftHalfEven mantissa.natAbs dropped) (scale - dropped) = some d →
      0 < d.mantissa := by
    intro dropped hleft hmk
    obtain ⟨_, ⟨⟩⟩ := Option.dite_none_right_eq_some.1 hmk
    exact Int.mul_pos (Int.sign_pos_iff.2 hpos) (Int.natCast_pos.2 hleft)
  induction more generalizing dropped with
  | zero => exact hcut hleft h
  | succ more ih =>
    rw [fitFrom] at h
    split at h
    · next hmk => exact hcut hleft (hmk.trans h)
    · next hnone =>
      refine ih ?_ h
      -- Were the number no larger, its first digits would be within bounds already.
      have hlarge : 10 * 10 ^ dropped < mantissa.natAbs := by
        by_contra hsmall
        have hten := shiftHalfEven_le (Nat.not_lt.1 hsmall)
        have hfits : (mantissa.sign * shiftHalfEven mantissa.natAbs dropped).natAbs ≤
            maxMantissa := by
          rw [natAbs_sign_mul_shiftHalfEven]
          exact Nat.le_trans hten (by decide)
        rw [mk?_eq_some hfits (by omega)] at hnone
        cases hnone
      rw [← Nat.pow_succ'] at hlarge
      refine Nat.lt_of_lt_of_le ?_ (div_le_shiftHalfEven _ _)
      exact Nat.div_pos (Nat.le_of_lt hlarge) (Nat.pow_pos (by decide))

/-- A sum of positive numbers is positive, exact or not. -/
theorem mantissa_pos_of_add? {a b c : Decimal} (ha : 0 < a.mantissa) (hb : 0 < b.mantissa)
    (h : a.add? b = some c) : 0 < c.mantissa := by
  have hat : ∀ {d : Decimal} (scale : Nat), 0 < d.mantissa → 0 < d.mantissaAt scale :=
    fun _ hd => Int.mul_pos hd (Int.pow_pos (by decide))
  have hzero : ∀ {d : Decimal}, 0 < d.mantissa → ¬ d.isZero = true := fun hd hzero =>
    Int.ne_of_gt hd (eq_of_beq hzero)
  rw [add?, if_neg (hzero ha), if_neg (hzero hb)] at h
  have hsum := Int.add_pos (hat (max a.scale b.scale) ha) (hat (max a.scale b.scale) hb)
  refine mantissa_pos_of_fitFrom (Nat.max_le.2 ⟨a.scale_le, b.scale_le⟩) hsum ?_ h
  rw [shiftHalfEven_zero]
  exact Int.natAbs_pos.2 (Int.ne_of_gt hsum)

/-! ## Dropping zeros -/

/-- Dropping zeros keeps the number. -/
theorem stripZeros_mul (mantissa : Int) {scale k : Nat} (hk : scale ≤ k) :
    (stripZeros mantissa scale).1 * 10 ^ (k - (stripZeros mantissa scale).2) =
      mantissa * 10 ^ (k - scale) := by
  induction scale generalizing mantissa with
  | zero => rfl
  | succ scale ih =>
    rw [stripZeros]
    split
    next h =>
      rw [ih (mantissa / 10) (by omega), show k - scale = (k - (scale + 1)) + 1 by omega, pow_succ,
        Int.mul_comm (10 ^ _), ← Int.mul_assoc, Int.ediv_mul_cancel (Int.dvd_of_emod_eq_zero h)]
    next => rfl

@[simp] theorem units_normalize (d : Decimal) : d.normalize.units = d.units :=
  stripZeros_mul d.mantissa d.scale_le

@[simp] theorem normalize_counts {d : Decimal} {n : Int} : d.normalize.Counts n ↔ d.Counts n := by
  rw [Counts, Counts, units_normalize]

/-- Zeros at the end of a fraction are dropped, so that a multiple of `10 ^ (scale - k)` keeps at
most `k` decimals. -/
theorem stripZeros_scale_le {mantissa : Int} {scale k : Nat}
    (h : (10 ^ (scale - k) : Int) ∣ mantissa) : (stripZeros mantissa scale).2 ≤ k := by
  induction scale generalizing mantissa with
  | zero => exact Nat.zero_le _
  | succ scale ih =>
    rw [stripZeros]
    rcases Nat.lt_or_ge k (scale + 1) with hk | hk
    · rw [show scale + 1 - k = (scale - k) + 1 by omega, pow_succ] at h
      have h10 : mantissa % 10 = 0 :=
        Int.emod_eq_zero_of_dvd (Dvd.dvd.trans (Dvd.intro_left _ rfl) h)
      rw [if_pos h10]
      exact ih (Int.dvd_ediv_of_mul_dvd (by rwa [Int.mul_comm]))
    · split
      · exact Nat.le_trans (stripZeros_bounds _ _).2 (by omega)
      · exact hk

/-- The fraction does not end in zeros. -/
def IsReduced (d : Decimal) : Prop := d.scale = 0 ∨ d.mantissa % 10 ≠ 0

/-- Zeros are dropped until there is no fraction or it ends in another digit. -/
theorem stripZeros_reduced (mantissa : Int) (scale : Nat) :
    (stripZeros mantissa scale).2 = 0 ∨ (stripZeros mantissa scale).1 % 10 ≠ 0 := by
  induction scale generalizing mantissa with
  | zero => exact .inl rfl
  | succ scale ih =>
    rw [stripZeros]
    split
    next => exact ih (mantissa / 10)
    next h => exact .inr h

/-- A normalised decimal is reduced. -/
theorem isReduced_normalize (d : Decimal) : d.normalize.IsReduced :=
  stripZeros_reduced d.mantissa d.scale

/-- A fraction without zeros at its end is no longer than another of the same number. -/
theorem IsReduced.scale_le {a b : Decimal} (ha : a.IsReduced) (h : a.units = b.units) :
    a.scale ≤ b.scale := by
  rcases ha with hwhole | hdigit
  · exact hwhole ▸ Nat.zero_le _
  by_contra hlt
  have hm := mantissa_mul_of_units a.scale_le b.scale_le h
  -- Were it longer, its mantissa would be the other one with zeros at its end.
  rw [Nat.sub_eq_zero_of_le (by omega), pow_zero, Int.mul_one,
    show a.scale - b.scale = (a.scale - b.scale - 1) + 1 by omega, pow_succ, ← Int.mul_assoc] at hm
  exact hdigit (hm ▸ Int.mul_emod_left _ _)

/-- A number is one decimal only without zeros at the end of its fraction. -/
theorem IsReduced.eq_of_units_eq {a b : Decimal} (ha : a.IsReduced) (hb : b.IsReduced)
    (h : a.units = b.units) : a = b := by
  have hscale := Nat.le_antisymm (ha.scale_le h) (hb.scale_le h.symm)
  have hmantissa : a.mantissa = b.mantissa := by
    rw [units, units, hscale] at h
    exact Int.eq_of_mul_eq_mul_right (pow_ne_zero _ (by decide)) h
  cases a
  cases b
  cases hscale
  cases hmantissa
  rfl

/-- Decimals of the same number have the same normal form, and only they have. -/
theorem normalize_eq_normalize_iff {a b : Decimal} :
    a.normalize = b.normalize ↔ a.units = b.units := by
  constructor
  · intro h
    rw [← units_normalize a, h, units_normalize]
  · intro h
    refine a.isReduced_normalize.eq_of_units_eq b.isReduced_normalize ?_
    rwa [units_normalize, units_normalize]

/-- A decimal counts hundred-millionths exactly if it has at most eight decimals besides zeros. -/
theorem Counts.scale_normalize_le {d : Decimal} {n : Int} (h : d.Counts n) :
    d.normalize.scale ≤ Fixed8.decimals := by
  refine stripZeros_scale_le ?_
  have hm := mantissa_mul_of_units d.scale_le (by decide) h
  rcases Nat.le_total d.scale Fixed8.decimals with hs | hs
  · rw [Nat.sub_eq_zero_of_le hs, pow_zero]
    exact one_dvd _
  · rw [Nat.sub_eq_zero_of_le hs, pow_zero, Int.mul_one] at hm
    exact ⟨n, by rw [hm, Int.mul_comm]⟩

/-- The count of a decimal with at most eight decimals. -/
theorem counts_of_scale_le {d : Decimal} (h : d.scale ≤ Fixed8.decimals) :
    d.Counts (d.mantissa * 10 ^ (Fixed8.decimals - d.scale)) := by
  show d.mantissa * 10 ^ (maxScale - d.scale) = _
  rw [Int.mul_assoc, ← pow_add]
  congr 2
  simp only [maxScale, Fixed8.decimals] at *
  omega

end Decimal

/-! ## Amounts of the ledger -/

namespace Fixed8

/-- No amount is that far from zero. -/
theorem ofRaw?_eq_none {raw : Int} (h : 2 ^ 63 < raw.natAbs) : ofRaw? raw = none :=
  dif_neg (by omega)

/-- An amount is made of the number that it holds, and of no other. -/
theorem ofRaw?_eq_some_iff {raw : Int} {a : Fixed8} : ofRaw? raw = some a ↔ raw = a.raw := by
  unfold ofRaw?
  constructor
  · intro h
    split at h
    · cases h
      rfl
    · cases h
  · rintro rfl
    exact dif_pos ⟨a.min_le, a.lt_max⟩

/-- Scaling by the factor and cutting off the fraction gives the count, if it is an amount at all;
what is too large for the mantissa is too large for an amount, however it is rounded. -/
theorem bind_ofRaw?_times? {d : Decimal} (h : d.scale ≤ decimals) :
    ((d.times? factor).bind fun scaled => ofRaw? scaled.wholePart) =
      ofRaw? (d.mantissa * 10 ^ (decimals - d.scale)) := by
  have hfactor : factor = 10 ^ (decimals - d.scale) * 10 ^ d.scale := by
    rw [← pow_add, Nat.sub_add_cancel h]
    rfl
  have hone : (0 : Int) < 10 ^ d.scale := Int.pow_pos (by decide)
  rw [Decimal.times?]
  by_cases hzero : d.isZero = true
  · rw [if_pos hzero, eq_of_beq hzero, Int.zero_mul]
    rfl
  rw [if_neg hzero]
  by_cases hfits : (d.mantissa * factor).natAbs ≤ Decimal.maxMantissa
  · rw [Decimal.fit_of_natAbs_le hfits d.scale_le]
    show ofRaw? ((d.mantissa * factor).tdiv (10 ^ d.scale)) = _
    rw [hfactor, ← Int.mul_assoc, Int.mul_tdiv_cancel _ (Int.ne_of_gt hone)]
  · -- Both sides are beyond 64 bits.
    have hone_le : 10 ^ d.scale ≤ 10 ^ 8 := Nat.pow_le_pow_right (by decide) h
    have hlarge : 2 ^ 64 ≤ (d.mantissa * factor).natAbs / 10 ^ d.scale := by
      rw [Nat.le_div_iff_mul_le (Nat.pow_pos (by decide))]
      rw [Decimal.maxMantissa] at hfits
      omega
    have hcount : (d.mantissa * 10 ^ (decimals - d.scale)).natAbs =
        (d.mantissa * factor).natAbs / 10 ^ d.scale := by
      rw [hfactor, ← Int.mul_assoc, Int.natAbs_mul _ (10 ^ d.scale), Int.natAbs_pow]
      exact (Nat.mul_div_cancel _ (Nat.pow_pos (by decide))).symm
    rw [ofRaw?_eq_none (by omega)]
    cases hfit : Decimal.fit (d.mantissa * factor) d.scale with
    | none => rfl
    | some scaled =>
      have hwhole := Decimal.natAbs_wholePart_of_fit hfit
      exact ofRaw?_eq_none (by omega)

/-- A decimal is an amount of the ledger exactly if it counts that amount's hundred-millionths. -/
theorem ofDecimal_eq_ok_iff {d : Decimal} {a : Fixed8} :
    ofDecimal d = .ok a ↔ d.Counts a.raw := by
  rw [← Decimal.normalize_counts, ofDecimal]
  by_cases hs : d.normalize.scale ≤ decimals
  · rw [bind_ofRaw?_times? hs]
    have hc := Decimal.counts_of_scale_le hs
    have hraw : d.normalize.Counts a.raw ↔
        ofRaw? (d.normalize.mantissa * 10 ^ (decimals - d.normalize.scale)) = some a := by
      rw [ofRaw?_eq_some_iff]
      exact ⟨hc.unique, fun h => h ▸ hc⟩
    rw [if_neg (by omega), hraw]
    cases ofRaw? (d.normalize.mantissa * 10 ^ (decimals - d.normalize.scale)) with
    | none =>
      constructor
      · rintro ⟨⟩
      · rintro ⟨⟩
    | some b =>
      constructor
      · rintro ⟨⟩
        rfl
      · rintro ⟨⟩
        rfl
  · rw [if_pos (by omega)]
    refine ⟨fun h => (nomatch h), fun h => absurd ?_ hs⟩
    exact (Decimal.normalize_counts.1 h).scale_normalize_le

/-- The decimal of an amount counts it. -/
theorem counts_toDecimal (a : Fixed8) : a.toDecimal.Counts a.raw :=
  Decimal.normalize_counts.2 rfl

end Fixed8

end LedgerClient
