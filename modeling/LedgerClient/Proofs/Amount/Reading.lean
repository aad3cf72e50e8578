import LedgerClient.Proofs.Amount.Written
import LedgerClient.Proofs.Result
import Mathlib.Algebra.Order.Field.Power
import Mathlib.Tactic.Positivity

/-!
# What is read of a written amount

Digits are read into the mantissa as long as there is room for them and for their decimals. Of those
that find no room the first rounds the mantissa, and the others are only looked at. So what is read
is all that was written, or it is near to it and there was room for no more (`Approximates`). Moving
the point by an exponent loses nothing but decimals beyond the largest scale. Together, a text whose
digits are kept is read as the number that it writes (`toRat_of_kept`); what is lost of any other is
far below the decimals of an amount, except that a large exponent brings it in front
(`near_written_of_parse`).
-/

namespace LedgerClient.Decimal

/-! ## Decimals that are dropped -/

/-- What is kept of `M` over `10 ^ K`: all, or decimals up to where there is room for no more, with
an error below one unit of the last. -/
inductive Approximates (M K : Nat) : Nat → Nat → Prop
  | exact : Approximates M K M K
  | rounded {m k : Nat} (beyond : maxMantissa < M ∨ maxScale < K)
    (near : |(M : ℚ) / 10 ^ K - m / 10 ^ k| ≤ 1 / 10 ^ k)
    (full : k = maxScale ∨ maxMantissa ≤ 10 * m + 9) : Approximates M K m k

/-- A number whose first digits are those of `m` lies between `m` and the next one. -/
theorem between_of_digits (m k : Nat) (cs : List Char) :
    (m : ℚ) / 10 ^ k ≤
        (Nat.ofDigitChars 10 (digits cs) m : ℚ) / 10 ^ (k + (digits cs).length) ∧
      (Nat.ofDigitChars 10 (digits cs) m : ℚ) / 10 ^ (k + (digits cs).length) ≤
        (m + 1) / 10 ^ k := by
  obtain ⟨hlow, hhigh⟩ := ofDigitChars_bounds m cs
  have hunit : (0 : ℚ) < 10 ^ k := by positivity
  have hrest : (0 : ℚ) < 10 ^ (digits cs).length := by positivity
  have hlow' : (m : ℚ) * 10 ^ (digits cs).length ≤ Nat.ofDigitChars 10 (digits cs) m := by
    exact_mod_cast hlow
  have hhigh' : (Nat.ofDigitChars 10 (digits cs) m : ℚ) ≤ (m + 1) * 10 ^ (digits cs).length := by
    exact_mod_cast hhigh.le
  rw [pow_add, mul_comm, ← div_div]
  constructor
  · exact div_le_div_of_nonneg_right ((le_div_iff₀ hrest).2 hlow') hunit.le
  · exact div_le_div_of_nonneg_right ((div_le_iff₀ hrest).2 hhigh') hunit.le

/-- The mantissa that has no room for a rounded digit is the largest one. Without its last decimal
it is still as near as a unit of the decimals that are left. -/
theorem near_of_gave_up {k : Nat} {x : ℚ} (hk : k ≠ 0) (hlow : (maxMantissa : ℚ) / 10 ^ k ≤ x)
    (hhigh : x ≤ (maxMantissa + 1) / 10 ^ k) :
    |x - ((maxMantissa + 1 + 4) / 10 : Nat) / 10 ^ (k - 1)| ≤ 1 / 10 ^ (k - 1) := by
  obtain ⟨k, rfl⟩ := Nat.exists_eq_succ_of_ne_zero hk
  have hunit : (0 : ℚ) < 1 / 10 ^ k := by positivity
  have hcut : (((maxMantissa + 1 + 4) / 10 : Nat) : ℚ) = (maxMantissa + 5) / 10 := by
    norm_num [maxMantissa]
  have hpow : (10 : ℚ) ^ (k + 1) = 10 ^ k * 10 := pow_succ 10 k
  have hkept : (maxMantissa : ℚ) / 10 ^ (k + 1) = maxMantissa / 10 * (1 / 10 ^ k) := by
    rw [hpow]
    field_simp
  have hnext : (maxMantissa + 1 : ℚ) / 10 ^ (k + 1) =
      (maxMantissa / 10 + 1 / 10) * (1 / 10 ^ k) := by
    rw [hpow]
    field_simp
  have hgiven : (maxMantissa + 5 : ℚ) / 10 / 10 ^ k =
      (maxMantissa / 10 + 1 / 2) * (1 / 10 ^ k) := by
    field_simp
    ring
  rw [hkept] at hlow
  rw [hnext] at hhigh
  rw [Nat.succ_sub_one, hcut, hgiven, abs_le]
  constructor <;> linarith

/-- Where there is no room for the next digit, it rounds. -/
theorem approximates_of_roundDigit {m k d m' k' : Nat} {cs : List Char} (hm : m ≤ maxMantissa)
    (hbeyond : maxMantissa < Nat.ofDigitChars 10 (digits cs) m ∨
      maxScale < k + (digits cs).length)
    (hfull : k = maxScale ∨ maxMantissa ≤ 10 * m + 9) (h : roundDigit m k d = .ok (m', k')) :
    Approximates (Nat.ofDigitChars 10 (digits cs) m) (k + (digits cs).length) m' k' := by
  obtain ⟨hlow, hhigh⟩ := between_of_digits m k cs
  have hunit : (0 : ℚ) < 1 / 10 ^ k := by positivity
  rw [add_div] at hhigh
  rw [roundDigit] at h
  split at h
  · cases h
    refine .rounded hbeyond (abs_le.2 ⟨by linarith, by linarith⟩) hfull
  split at h
  · cases h
    refine .rounded hbeyond (abs_le.2 ?_) (hfull.imp_right fun h => by omega)
    rw [Nat.cast_add, Nat.cast_one, add_div]
    exact ⟨by linarith, by linarith⟩
  split at h
  · cases h
  · next hlast hk =>
    cases h
    obtain rfl : m = maxMantissa := by omega
    rw [← add_div] at hhigh
    exact .rounded hbeyond (near_of_gave_up hk hlow hhigh) (.inr (by decide))

/-- Decimals beyond the largest scale may also be dropped without rounding. -/
theorem approximates_of_cut (m : Nat) (cs : List Char) :
    Approximates (Nat.ofDigitChars 10 (digits cs) m) (maxScale + (digits cs).length) m maxScale := by
  by_cases hcs : digits cs = []
  · rw [hcs]
    exact .exact
  · obtain ⟨hlow, hhigh⟩ := between_of_digits m maxScale cs
    have hlength := List.length_pos_iff.2 hcs
    have hunit : (0 : ℚ) < 1 / 10 ^ maxScale := by positivity
    rw [add_div] at hhigh
    exact .rounded (.inr (by omega)) (abs_le.2 ⟨by linarith, by linarith⟩) (.inl rfl)

/-! ## The digits of the mantissa -/

/-- What is left to read when the scale is the largest. -/
theorem approximates_of_finish {m m' k' : Nat} {skip : Bool} {cs : List Char}
    (hm : m ≤ maxMantissa) (h : finish m maxScale skip cs = .ok (m', k')) :
    Approximates (Nat.ofDigitChars 10 (digits cs) m) (maxScale + (digits cs).length) m' k' := by
  induction cs with
  | nil =>
    cases h
    exact .exact
  | cons c cs ih =>
    rw [finish] at h
    by_cases hc : c.isDigit = true
    · rw [digitValue?_of_isDigit hc] at h
      obtain ⟨_, -, hround⟩ := Except.bind_eq_ok_iff.1 h
      refine approximates_of_roundDigit hm (.inr ?_) (.inl rfl) hround
      rw [digits_cons_of_isDigit hc, List.length_cons]
      omega
    · rw [digitValue?_of_not_isDigit hc] at h
      rw [digits_cons_of_not_isDigit hc]
      dsimp only at h
      split at h
      · split at h
        · exact ih h
        · obtain ⟨_, -, ⟨⟩⟩ := Except.bind_eq_ok_iff.1 h
          exact approximates_of_cut m cs
      · cases h

/-- What is left to read after the point. -/
theorem approximates_of_scan_fraction {seen : Bool} {m k m' k' : Nat} {cs : List Char}
    (hm : m ≤ maxMantissa) (h : scan true seen m k cs = .ok (m', k')) :
    Approximates (Nat.ofDigitChars 10 (digits cs) m) (k + (digits cs).length) m' k' := by
  induction cs generalizing seen m k with
  | nil =>
    rw [scan] at h
    split at h
    · cases h
      exact .exact
    · cases h
  | cons c cs ih =>
    rw [scan] at h
    by_cases hc : c.isDigit = true
    · have hmore : Nat.ofDigitChars 10 (digits (c :: cs)) m =
          Nat.ofDigitChars 10 (digits cs) (10 * m + (c.toNat - '0'.toNat)) := by
        rw [digits_cons_of_isDigit hc, Nat.ofDigitChars_cons]
      have hlength : k + (digits (c :: cs)).length = k + 1 + (digits cs).length := by
        rw [digits_cons_of_isDigit hc, List.length_cons, Nat.add_assoc, Nat.add_comm 1]
      rw [digitValue?_of_isDigit hc] at h
      simp only [if_true, Bool.true_and, beq_iff_eq] at h
      split at h
      -- The mantissa is full: the digit rounds it, and those behind count for nothing.
      · next hfull =>
        obtain ⟨_, -, hround⟩ := Except.bind_eq_ok_iff.1 h
        have hdigit := digitValue_lt hc
        refine approximates_of_roundDigit hm (.inl ?_) (.inr (by omega)) hround
        rw [hmore]
        exact hfull.trans_le (le_ofDigitChars _ _)
      split at h
      -- The digit is the last that a decimal has room for.
      · next hnext hlast =>
        rw [hmore, hlength, hlast]
        exact approximates_of_finish (Nat.le_of_not_lt hnext) h
      · next hnext _ =>
        rw [hmore, hlength]
        exact ih (Nat.le_of_not_lt hnext) h
    · rw [digitValue?_of_not_isDigit hc] at h
      rw [digits_cons_of_not_isDigit hc]
      simp only [not_true_eq_false, and_false, if_false] at h
      split at h
      · exact ih hm h
      · cases h

/-- What is left to read before the point. -/
theorem approximates_of_scan {seen : Bool} {m m' k' : Nat} {cs : List Char}
    (hm : m ≤ maxMantissa) (h : scan false seen m 0 cs = .ok (m', k')) :
    Approximates (Nat.ofDigitChars 10 (digits cs) m) (places cs) m' k' := by
  induction cs generalizing seen m with
  | nil =>
    rw [scan] at h
    split at h
    · cases h
      exact .exact
    · cases h
  | cons c cs ih =>
    rw [scan] at h
    by_cases hc : c.isDigit = true
    · have hpoint : c ≠ '.' := by
        rintro rfl
        cases hc
      rw [digitValue?_of_isDigit hc] at h
      simp only [Bool.false_eq_true, if_false, Bool.false_and] at h
      split at h
      · cases h
      · next hnext =>
        rw [digits_cons_of_isDigit hc, Nat.ofDigitChars_cons, places_cons hpoint]
        exact ih (Nat.le_of_not_lt hnext) h
    · rw [digitValue?_of_not_isDigit hc] at h
      rw [digits_cons_of_not_isDigit hc]
      simp only [Bool.false_eq_true, not_false_eq_true, and_true] at h
      split at h
      · next hpoint =>
        rw [hpoint, places_point, ← Nat.zero_add (digits cs).length]
        exact approximates_of_scan_fraction hm h
      · next hpoint =>
        rw [places_cons hpoint]
        split at h
        · exact ih hm h
        · cases h

/-! ## The mantissa with its sign -/

/-- The sign is no part of the digits, and no mark of an exponent. -/
theorem splitSign_spec {cs body : List Char} {negative : Bool}
    (h : splitSign cs = (negative, body)) :
    digits body = digits cs ∧ places body = places cs ∧
      (leadingSign cs = if negative then -1 else 1) ∧
      ((∀ c ∈ body, isExponentMark c = false) → ∀ c ∈ cs, isExponentMark c = false) := by
  unfold splitSign at h
  split at h
  · cases h
    exact ⟨rfl, rfl, rfl, fun hbody => List.forall_mem_cons.2 ⟨rfl, hbody⟩⟩
  · cases h
    exact ⟨rfl, rfl, rfl, fun hbody => List.forall_mem_cons.2 ⟨rfl, hbody⟩⟩
  · next hminus _ =>
    cases h
    exact ⟨rfl, rfl, leadingSign_eq_one hminus, id⟩

/-- An amount without exponent is read with the sign in front of it. -/
theorem exists_of_ofPlainChars {cs : List Char} {d : Decimal} (h : ofPlainChars cs = .ok d) :
    ∃ m, Approximates (digitsValue cs) (places cs) m d.scale ∧
      d.toRat = leadingSign cs * (m / 10 ^ d.scale) := by
  rw [ofPlainChars] at h
  split at h
  · cases h
  rcases hsplit : splitSign cs with ⟨negative, body⟩
  obtain ⟨hdigits, hplaces, hsign, -⟩ := splitSign_spec hsplit
  rw [hsplit] at h
  obtain ⟨⟨m, k⟩, hscan, hmk⟩ := Except.bind_eq_ok_iff.1 h
  have happrox := approximates_of_scan (Nat.zero_le _) hscan
  rw [hdigits, hplaces] at happrox
  dsimp only at hmk
  split at hmk
  · next hd =>
    cases hmk
    obtain ⟨_, ⟨⟩⟩ := Option.dite_none_right_eq_some.1 hd
    refine ⟨m, happrox, ?_⟩
    rw [hsign, toRat]
    cases negative with
    | true => simp [neg_div]
    | false => simp
  · cases hmk

/-! ## The mark of an exponent -/

/-- No digit is the mark of an exponent. -/
theorem isExponentMark_of_isDigit {c : Char} (h : c.isDigit = true) :
    isExponentMark c = false := by
  rw [isExponentMark, Bool.or_eq_false_iff, beq_eq_false_iff_ne, beq_eq_false_iff_ne]
  constructor <;> rintro rfl <;> cases h

/-- What passes as the rest of a number holds no mark of an exponent. -/
theorem isExponentMark_of_checkRest {cs : List Char} {u : Unit} (h : checkRest cs = .ok u) :
    ∀ c ∈ cs, isExponentMark c = false := by
  induction cs with
  | nil => exact List.forall_mem_nil _
  | cons c cs ih =>
    rw [checkRest] at h
    split at h
    · next hc =>
      refine List.forall_mem_cons.2 ⟨?_, ih h⟩
      by_cases hdigit : c.isDigit = true
      · exact isExponentMark_of_isDigit hdigit
      · rw [digitValue?_of_not_isDigit hdigit] at hc
        obtain rfl | hc := hc
        · rfl
        · cases hc
    · cases h

/-- Nor does what is left to check once the digits have no more room. -/
theorem isExponentMark_of_finish {m k : Nat} {skip : Bool} {cs : List Char} {r : Nat × Nat}
    (h : finish m k skip cs = .ok r) : ∀ c ∈ cs, isExponentMark c = false := by
  induction cs with
  | nil => exact List.forall_mem_nil _
  | cons c cs ih =>
    rw [finish] at h
    by_cases hc : c.isDigit = true
    · rw [digitValue?_of_isDigit hc] at h
      obtain ⟨_, hrest, -⟩ := Except.bind_eq_ok_iff.1 h
      exact List.forall_mem_cons.2 ⟨isExponentMark_of_isDigit hc, isExponentMark_of_checkRest hrest⟩
    · rw [digitValue?_of_not_isDigit hc] at h
      dsimp only at h
      split at h
      · next hseparator =>
        subst hseparator
        refine List.forall_mem_cons.2 ⟨rfl, ?_⟩
        split at h
        · exact ih h
        · obtain ⟨_, hrest, -⟩ := Except.bind_eq_ok_iff.1 h
          exact isExponentMark_of_checkRest hrest
      · cases h

/-- Nor does anything that is scanned as a plain number, so that such a text is never read with an
exponent. -/
theorem isExponentMark_of_scan {point seen : Bool} {m k : Nat} {cs : List Char} {r : Nat × Nat}
    (h : scan point seen m k cs = .ok r) : ∀ c ∈ cs, isExponentMark c = false := by
  induction cs generalizing point seen m k with
  | nil => exact List.forall_mem_nil _
  | cons c cs ih =>
    rw [scan] at h
    by_cases hc : c.isDigit = true
    · refine List.forall_mem_cons.2 ⟨isExponentMark_of_isDigit hc, ?_⟩
      rw [digitValue?_of_isDigit hc] at h
      dsimp only at h
      split at h
      · split at h
        · obtain ⟨_, hrest, -⟩ := Except.bind_eq_ok_iff.1 h
          exact isExponentMark_of_checkRest hrest
        · cases h
      split at h
      · exact isExponentMark_of_finish h
      · exact ih h
    · rw [digitValue?_of_not_isDigit hc] at h
      dsimp only at h
      split at h
      · next hpoint =>
        rw [hpoint.1]
        exact List.forall_mem_cons.2 ⟨rfl, ih h⟩
      split at h
      · next hseparator =>
        rw [hseparator.1]
        exact List.forall_mem_cons.2 ⟨rfl, ih h⟩
      · cases h

/-- What is read as an amount without exponent has no mark of one. -/
theorem isExponentMark_of_ofPlainChars {cs : List Char} {d : Decimal}
    (h : ofPlainChars cs = .ok d) : ∀ c ∈ cs, isExponentMark c = false := by
  rw [ofPlainChars] at h
  split at h
  · cases h
  rcases hsplit : splitSign cs with ⟨negative, body⟩
  obtain ⟨-, -, -, hmark⟩ := splitSign_spec hsplit
  rw [hsplit] at h
  obtain ⟨_, hscan, -⟩ := Except.bind_eq_ok_iff.1 h
  exact hmark (isExponentMark_of_scan hscan)

/-! ## The exponent -/

/-- The digits of an exponent are read as the number that they spell. -/
theorem ofDigitChars_of_foldlM {cs : List Char} {m n : Nat}
    (h : cs.foldlM (fun n c => (digitValue? c).map (10 * n + ·)) m = some n) :
    Nat.ofDigitChars 10 (digits cs) m = n := by
  induction cs generalizing m with
  | nil => exact Option.some.inj h
  | cons c cs ih =>
    rw [List.foldlM_cons] at h
    by_cases hc : c.isDigit = true
    · rw [digitValue?_of_isDigit hc] at h
      rw [digits_cons_of_isDigit hc, Nat.ofDigitChars_cons]
      exact ih h
    · rw [digitValue?_of_not_isDigit hc] at h
      cases h

/-- An exponent that is read has the value of its digits. -/
theorem digitsValue_of_exponentValue? {cs : List Char} {n : Nat} (h : exponentValue? cs = some n) :
    digitsValue cs = n := by
  have hread : ∀ ds : List Char, digits ds = digits cs →
      (if ds.isEmpty then none
        else do
          let n ← ds.foldlM (fun n c => (digitValue? c).map (10 * n + ·)) 0
          if n ≤ maxExponent then some n else none) = some n → digitsValue cs = n := by
    intro ds hds hsome
    split at hsome
    · cases hsome
    obtain ⟨value, hfold, hvalue⟩ := Option.bind_eq_some_iff.1 hsome
    split at hvalue
    · cases hvalue
      rw [digitsValue, ← hds, ofDigitChars_of_foldlM hfold]
    · cases hvalue
  unfold exponentValue? at h
  split at h
  · refine hread _ ?_ h
    rfl
  · refine hread _ ?_ h
    rfl

/-- The point is moved right without loss. -/
theorem toRat_of_shiftRight {d r : Decimal} {e : Nat} (h : shiftRight d e = .ok r) :
    r.toRat = d.toRat * 10 ^ e := by
  rw [shiftRight] at h
  split at h
  · next hle =>
    cases h
    have hsplit : (10 : ℚ) ^ d.scale = 10 ^ (d.scale - e) * 10 ^ e := by
      rw [← pow_add, Nat.sub_add_cancel hle]
    rw [toRat, toRat, hsplit]
    field_simp
  · next hlt =>
    split at h
    · cases h
    split at h
    · next hmk =>
      cases h
      obtain ⟨_, ⟨⟩⟩ := Option.dite_none_right_eq_some.1 hmk
      have hsplit : (10 : ℚ) ^ e = 10 ^ (e - d.scale) * 10 ^ d.scale := by
        rw [← pow_add, Nat.sub_add_cancel (by omega)]
      rw [toRat, toRat, hsplit]
      push_cast
      field_simp
    · cases h

/-- Rounding half up stays within one of the quotient. -/
theorem near_shiftHalfUp (n k : Nat) : |(shiftHalfUp n k : ℚ) - n / 10 ^ k| ≤ 1 := by
  have hunit : 0 < 10 ^ k := Nat.pow_pos (by decide)
  have hquotient := Nat.div_add_mod (n + 10 ^ k / 2) (10 ^ k)
  have hrest := Nat.mod_lt (n + 10 ^ k / 2) hunit
  rw [← shiftHalfUp] at hquotient
  have hlow : 10 ^ k * shiftHalfUp n k ≤ n + 10 ^ k := by omega
  have hhigh : n ≤ 10 ^ k * shiftHalfUp n k + 10 ^ k := by omega
  have hlow' : (10 : ℚ) ^ k * shiftHalfUp n k ≤ n + 10 ^ k := by exact_mod_cast hlow
  have hhigh' : (n : ℚ) ≤ 10 ^ k * shiftHalfUp n k + 10 ^ k := by exact_mod_cast hhigh
  have hunit' : (0 : ℚ) < 10 ^ k := by positivity
  rw [abs_sub_comm, abs_le, neg_le_sub_iff_le_add, sub_le_iff_le_add, div_le_iff₀ hunit',
    ← sub_le_iff_le_add, le_div_iff₀ hunit']
  constructor <;> linarith

/-- The same holds with a sign. -/
theorem near_sign_mul_shiftHalfUp (m : Int) (k : Nat) :
    |((m.sign * shiftHalfUp m.natAbs k : ℤ) : ℚ) - m / 10 ^ k| ≤ 1 := by
  have hm : (m : ℚ) = m.sign * m.natAbs := by
    rw [← Int.cast_natCast, ← Int.cast_mul, Int.sign_mul_natAbs]
  have hsign : |(m.sign : ℚ)| ≤ 1 := by
    obtain h | h | h := Int.sign_trichotomy m <;> simp [h]
  rw [Int.cast_mul, Int.cast_natCast, hm, mul_div_assoc, ← mul_sub, abs_mul]
  exact mul_le_one₀ hsign (abs_nonneg _) (near_shiftHalfUp _ _)

/-- Nothing is rounded up where no decimal is dropped. -/
theorem shiftHalfUp_zero (n : Nat) : shiftHalfUp n 0 = n := by
  rw [shiftHalfUp]
  simp

/-- Where the scale has room, the point is moved left without loss. -/
theorem toRat_of_shiftLeft {d r : Decimal} {e : Nat} (h : shiftLeft d e = .ok r)
    (hscale : d.scale + e ≤ maxScale) : r.toRat = d.toRat / 10 ^ e := by
  have hkept : min d.scale (maxScale - e) = d.scale := by omega
  rw [shiftLeft, if_neg (by omega)] at h
  dsimp only at h
  split at h
  · next hmk =>
    cases h
    obtain ⟨_, ⟨⟩⟩ := Option.dite_none_right_eq_some.1 hmk
    rw [toRat, toRat]
    dsimp only
    rw [hkept, Nat.sub_self, shiftHalfUp_zero, Int.sign_mul_natAbs, pow_add, div_div]
  · cases h

/-- Where it has no room, decimals beyond the largest scale are rounded off. -/
theorem near_of_shiftLeft {d r : Decimal} {e : Nat} (h : shiftLeft d e = .ok r) :
    |r.toRat - d.toRat / 10 ^ e| ≤ 1 / 10 ^ maxScale := by
  by_cases hscale : d.scale + e ≤ maxScale
  · rw [toRat_of_shiftLeft h hscale, sub_self, abs_zero]
    positivity
  rw [shiftLeft] at h
  split at h
  · cases h
  · next he =>
    have hkept : min d.scale (maxScale - e) = maxScale - e := by omega
    dsimp only at h
    split at h
    · next hmk =>
      cases h
      obtain ⟨_, ⟨⟩⟩ := Option.dite_none_right_eq_some.1 hmk
      rw [toRat, toRat]
      dsimp only
      rw [hkept, Nat.sub_add_cancel (by omega)]
      have hsum : d.scale + e = d.scale - (maxScale - e) + maxScale := by omega
      rw [div_div, ← pow_add, hsum, pow_add, ← div_div, ← sub_div, abs_div,
        abs_of_pos (by positivity : (0 : ℚ) < 10 ^ maxScale)]
      exact div_le_div_of_nonneg_right (near_sign_mul_shiftHalfUp _ _) (by positivity)
    · cases h

/-! ## Whole texts -/

/-- A decimal was read from a text: its mantissa part was read as the digits of `m` with `k`
decimals, and then its exponent moved the point. -/
structure ReadFrom (d : Decimal) (cs : List Char) (m k : Nat) : Prop where
  mantissa : Approximates (digitsValue (mantissaPart cs)) (places (mantissaPart cs)) m k
  near : |d.toRat - leadingSign (mantissaPart cs) * (m / 10 ^ k) * 10 ^ exponent cs| ≤
    1 / 10 ^ maxScale
  exact : k - exponent cs ≤ maxScale →
    d.toRat = leadingSign (mantissaPart cs) * (m / 10 ^ k) * 10 ^ exponent cs

/-- What was read without loss after the mantissa part. -/
theorem readFrom_of_eq {d : Decimal} {cs : List Char} {m k : Nat}
    (h : Approximates (digitsValue (mantissaPart cs)) (places (mantissaPart cs)) m k)
    (heq : d.toRat = leadingSign (mantissaPart cs) * (m / 10 ^ k) * 10 ^ exponent cs) :
    ReadFrom d cs m k where
  mantissa := h
  near := by
    rw [heq, sub_self, abs_zero]
    positivity
  exact _ := heq

/-- What is read with an exponent was read from a mantissa and a scale. -/
theorem exists_of_ofScientificChars {cs : List Char} {d : Decimal}
    (h : ofScientificChars cs = .ok d) : ∃ m k, ReadFrom d cs m k := by
  obtain ⟨base, hbase, hmove⟩ := Except.bind_eq_ok_iff.1 h
  rw [← mantissaPart] at hbase
  obtain ⟨m, happrox, htoRat⟩ := exists_of_ofPlainChars hbase
  refine ⟨m, base.scale, ?_⟩
  split at hmove
  · next ds hds =>
    -- The exponent is negative: decimals are added, and what is too small is rounded.
    have hexponent : exponent cs = -digitsValue ds := by
      rw [exponent, exponentPart, hds]
      exact neg_one_mul _
    split at hmove
    · next e he =>
      have hpow : (10 : ℚ) ^ exponent cs = 1 / 10 ^ e := by
        rw [hexponent, digitsValue_of_exponentValue? he, zpow_neg, zpow_natCast, one_div]
      refine ⟨happrox, ?_, fun hscale => ?_⟩
      · rw [hpow, mul_one_div, ← htoRat]
        exact near_of_shiftLeft hmove
      · rw [hpow, mul_one_div, ← htoRat]
        rw [hexponent, digitsValue_of_exponentValue? he] at hscale
        exact toRat_of_shiftLeft hmove (by omega)
    · cases hmove
  · next hminus =>
    rw [← exponentPart] at hminus hmove
    -- The exponent is not negative: decimals are taken away, and nothing is rounded.
    have hexponent : exponent cs = digitsValue (exponentPart cs) := by
      rw [exponent, leadingSign_eq_one hminus, one_mul]
    split at hmove
    · next e he =>
      have hpow : (10 : ℚ) ^ exponent cs = 10 ^ e := by
        rw [hexponent, digitsValue_of_exponentValue? he, zpow_natCast]
      refine readFrom_of_eq happrox ?_
      rw [hpow, ← htoRat]
      exact toRat_of_shiftRight hmove
    · cases hmove

/-- Whatever is read as a decimal was read from a mantissa and a scale, with an exponent or
without. -/
theorem exists_of_parse {s : String} {d : Decimal} (h : parse s = .ok d) :
    ∃ m k, ReadFrom d s.toList m k := by
  rw [parse] at h
  split at h
  · next hplain =>
    cases h
    obtain ⟨m, happrox, htoRat⟩ := exists_of_ofPlainChars hplain
    obtain ⟨hpart, hexponent⟩ :=
      mantissaPart_of_forall (isExponentMark_of_ofPlainChars hplain)
    refine ⟨m, d.scale, readFrom_of_eq ?_ ?_⟩
    · rw [hpart]
      exact happrox
    · rw [hpart, hexponent, zpow_zero, mul_one]
      exact htoRat
  · split at h
    · exact exists_of_ofScientificChars h
    · cases h

/-- What a text writes is read without loss if it keeps within the bounds. -/
theorem toRat_of_kept {s : String} {d : Decimal} (h : parse s = .ok d) (hkept : Kept s.toList) :
    d.toRat = written s.toList := by
  obtain ⟨m, k, hread⟩ := exists_of_parse h
  cases hread.mantissa with
  | exact => exact hread.exact hkept.moved_le
  | rounded beyond =>
    have := hkept.digitsValue_le
    have := hkept.places_le
    omega

/-- What the mantissa part loses is below one unit of the last decimal kept, where the exponent has
moved it. -/
theorem ReadFrom.near_written {d : Decimal} {cs : List Char} {m k : Nat} (h : ReadFrom d cs m k)
    (hnear : |(digitsValue (mantissaPart cs) : ℚ) / 10 ^ places (mantissaPart cs) - m / 10 ^ k| ≤
      1 / 10 ^ k) :
    |written cs - d.toRat| ≤ 10 ^ exponent cs / 10 ^ k + 1 / 10 ^ maxScale := by
  have hpower : (0 : ℚ) < 10 ^ exponent cs := by positivity
  have hloss : |written cs - leadingSign (mantissaPart cs) * (m / 10 ^ k) * 10 ^ exponent cs| ≤
      10 ^ exponent cs / 10 ^ k := by
    rw [written, writtenPlain, ← sub_mul, ← mul_sub, abs_mul, abs_mul, abs_leadingSign, one_mul,
      abs_of_pos hpower, ← one_div_mul_eq_div ((10 : ℚ) ^ k) (10 ^ exponent cs)]
    exact mul_le_mul_of_nonneg_right hnear hpower.le
  have hmoved := h.near
  rw [abs_sub_comm] at hmoved
  exact (abs_sub_le _ _ _).trans (add_le_add hloss hmoved)

/-- A full mantissa leaves little room for what is not read, unless the number is large. -/
theorem ReadFrom.unit_le {d : Decimal} {cs : List Char} {m k : Nat} (h : ReadFrom d cs m k)
    (hfull : maxMantissa ≤ 10 * m + 9) (hsmall : |d.toRat| ≤ 10 ^ 11) :
    (10 : ℚ) ^ exponent cs / 10 ^ k ≤ 1 / 10 ^ 16 - 1 / 10 ^ maxScale := by
  have hunit : (0 : ℚ) < 10 ^ exponent cs / 10 ^ k := by positivity
  have hm : (7 * 10 ^ 27 : ℚ) ≤ m := by
    have hm : 7 * 10 ^ 27 ≤ m := by
      rw [maxMantissa] at hfull
      omega
    exact_mod_cast hm
  have hread : (m : ℚ) * (10 ^ exponent cs / 10 ^ k) ≤ 10 ^ 11 + 1 := by
    have habs : |(leadingSign (mantissaPart cs) : ℚ) * (m / 10 ^ k) * 10 ^ exponent cs| =
        (m : ℚ) * (10 ^ exponent cs / 10 ^ k) := by
      rw [abs_mul, abs_mul, abs_leadingSign, one_mul, abs_of_nonneg (by positivity),
        abs_of_nonneg (by positivity)]
      ring
    have htriangle := abs_sub_abs_le_abs_sub
      ((leadingSign (mantissaPart cs) : ℚ) * (m / 10 ^ k) * 10 ^ exponent cs) d.toRat
    rw [abs_sub_comm, habs] at htriangle
    have hone : (1 : ℚ) / 10 ^ maxScale ≤ 1 := by
      rw [maxScale]
      norm_num
    linarith [h.near]
  have hlow := (mul_le_mul_of_nonneg_right hm hunit.le).trans hread
  rw [maxScale]
  linarith

/-- What a text writes is read with a loss that only a large exponent makes notable. -/
theorem near_written_of_parse {s : String} {d : Decimal} (h : parse s = .ok d)
    (hsmall : |d.toRat| ≤ 10 ^ 11) :
    |written s.toList - d.toRat| ≤ 1 / 10 ^ 16 + 10 ^ (exponent s.toList - maxScale) := by
  obtain ⟨m, k, hread⟩ := exists_of_parse h
  have hpower : (10 : ℚ) ^ (exponent s.toList - maxScale) =
      10 ^ exponent s.toList / 10 ^ maxScale := by
    rw [zpow_sub₀ (by norm_num), zpow_natCast]
  have hpositive : (0 : ℚ) < 10 ^ exponent s.toList / 10 ^ maxScale := by positivity
  have hmoved : (1 : ℚ) / 10 ^ maxScale ≤ 1 / 10 ^ 16 := by
    rw [maxScale]
    norm_num
  rw [hpower]
  cases hread.mantissa with
  | exact =>
    have hnear := hread.near
    rw [abs_sub_comm] at hnear
    exact hnear.trans (hmoved.trans (le_add_of_nonneg_right hpositive.le))
  | rounded _ hnear hfull =>
    have hloss := hread.near_written hnear
    obtain rfl | hfull := hfull
    · linarith
    · linarith [hread.unit_le hfull hsmall]

end LedgerClient.Decimal
