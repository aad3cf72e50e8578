import LedgerClient.Proofs.Amount.Count
import Mathlib.Data.List.TakeWhile
import Mathlib.Data.Rat.Cast.Defs
import Mathlib.Tactic.FieldSimp
import Mathlib.Tactic.Linarith
import Mathlib.Tactic.NormNum
import Mathlib.Tactic.Ring

/-!
# The numbers of decimals and of texts

A decimal is a rational number (`toRat`), and so is what a text writes: the digits before its
exponent, over a power of ten for those after the point, with its sign and its exponent (`written`).
The number of a text does not depend on how the text is read. Its digits and decimals may be more
than a decimal has room for (`Kept`).
-/

namespace LedgerClient.Decimal

/-! ## The number of a decimal -/

/-- The number that a decimal is. -/
def toRat (d : Decimal) : ℚ := d.mantissa / 10 ^ d.scale

/-- The units of a decimal are its number, at the finest scale. -/
theorem cast_units (d : Decimal) : (d.units : ℚ) = d.toRat * 10 ^ maxScale := by
  have hsplit : (10 : ℚ) ^ maxScale = 10 ^ d.scale * 10 ^ (maxScale - d.scale) := by
    rw [← pow_add, Nat.add_sub_cancel' d.scale_le]
  rw [units, toRat, hsplit, ← mul_assoc, div_mul_cancel₀ _ (pow_ne_zero _ (by norm_num))]
  push_cast
  rfl

/-- A decimal counts its number, taken a hundred million times. -/
theorem counts_iff_toRat {d : Decimal} {n : ℤ} :
    d.Counts n ↔ d.toRat * 10 ^ Fixed8.decimals = n := by
  have hsplit : (10 : ℚ) ^ maxScale = 10 ^ Fixed8.decimals * 10 ^ (maxScale - Fixed8.decimals) := by
    rw [← pow_add]
    rfl
  have hunits : (d.units : ℚ) =
      d.toRat * 10 ^ Fixed8.decimals * 10 ^ (maxScale - Fixed8.decimals) := by
    rw [cast_units, hsplit, mul_assoc]
  have hpow : (10 : ℚ) ^ (maxScale - Fixed8.decimals) ≠ 0 := pow_ne_zero _ (by norm_num)
  rw [Counts, ← @Int.cast_inj ℚ, hunits]
  push_cast
  exact mul_left_inj' hpow

/-- Decimals in the same units are the same number. -/
theorem units_eq_iff_toRat {a b : Decimal} : a.units = b.units ↔ a.toRat = b.toRat := by
  have hpow : (10 : ℚ) ^ maxScale ≠ 0 := pow_ne_zero _ (by norm_num)
  rw [← @Int.cast_inj ℚ, cast_units, cast_units]
  exact mul_left_inj' hpow

/-- A decimal is a positive number exactly if its count is positive. -/
theorem Counts.toRat_pos_iff {d : Decimal} {n : ℤ} (h : d.Counts n) : 0 < d.toRat ↔ 0 < n := by
  have hpow : (0 : ℚ) < 10 ^ Fixed8.decimals := pow_pos (by norm_num) _
  rw [← @Int.cast_pos ℚ, ← counts_iff_toRat.1 h, mul_pos_iff_of_pos_right hpow]

/-! ## The number that a text writes -/

/-- The digits among characters. -/
def digits (cs : List Char) : List Char := cs.filter Char.isDigit

/-- The whole number that the digits among characters spell. -/
def digitsValue (cs : List Char) : Nat := Nat.ofDigitChars 10 (digits cs) 0

/-- The number of digits after the first point. -/
def places (cs : List Char) : Nat := (digits (cs.dropWhile (· != '.'))).length

/-- What stands before the mark of an exponent, or everything. -/
def mantissaPart (cs : List Char) : List Char := cs.takeWhile (! isExponentMark ·)

/-- What stands after the mark of an exponent, if there is one. -/
def exponentPart (cs : List Char) : List Char := (cs.dropWhile (! isExponentMark ·)).drop 1

/-- The sign in front, where only a minus counts. -/
def leadingSign (cs : List Char) : ℤ := if cs.head? = some '-' then -1 else 1

/-- The exponent that a text writes, zero if none. -/
def exponent (cs : List Char) : ℤ := leadingSign (exponentPart cs) * digitsValue (exponentPart cs)

/-- The number that characters without exponent write. -/
def writtenPlain (cs : List Char) : ℚ := leadingSign cs * (digitsValue cs / 10 ^ places cs)

/-- The number that a text writes. -/
def written (cs : List Char) : ℚ := writtenPlain (mantissaPart cs) * 10 ^ exponent cs

/-- The digits of a text fit the mantissa, and its decimals fit the scale, also once its exponent
has moved the point. -/
structure Kept (cs : List Char) : Prop where
  digitsValue_le : digitsValue (mantissaPart cs) ≤ maxMantissa
  places_le : places (mantissaPart cs) ≤ maxScale
  moved_le : places (mantissaPart cs) - exponent cs ≤ maxScale

/-- The number that a text writes is put together from its sign, digits, places and exponent. -/
theorem written_eq {cs : List Char} {sign x : ℤ} {n k : Nat}
    (hsign : leadingSign (mantissaPart cs) = sign) (hn : digitsValue (mantissaPart cs) = n)
    (hk : places (mantissaPart cs) = k) (hx : exponent cs = x) :
    written cs = sign * (n / 10 ^ k) * 10 ^ x := by
  rw [written, writtenPlain, hsign, hn, hk, hx]

/-- A text without a minus in front has the sign of a positive number. -/
theorem leadingSign_eq_one {cs : List Char} (h : ∀ rest, cs = '-' :: rest → False) :
    leadingSign cs = 1 := by
  refine if_neg fun hhead => ?_
  obtain ⟨rest, rfl⟩ := List.head?_eq_some_iff.1 hhead
  exact h rest rfl

/-- A sign changes nothing of the size. -/
theorem abs_leadingSign (cs : List Char) : |(leadingSign cs : ℚ)| = 1 := by
  rw [leadingSign]
  split <;> norm_num

/-- Without the mark of an exponent, all is mantissa. -/
theorem mantissaPart_of_forall {cs : List Char} (h : ∀ c ∈ cs, isExponentMark c = false) :
    mantissaPart cs = cs ∧ exponent cs = 0 := by
  have hall : ∀ c ∈ cs, (! isExponentMark c) = true := fun c hc => by rw [h c hc, Bool.not_false]
  have hpart : exponentPart cs = [] := by
    rw [exponentPart, List.dropWhile_eq_nil_iff.2 hall, List.drop_nil]
  refine ⟨List.takeWhile_eq_self_iff.2 hall, ?_⟩
  rw [exponent, hpart]
  rfl

/-! ## Digits -/

/-- The digits are the characters from 0 to 9. -/
theorem isDigit_iff {c : Char} : c.isDigit = true ↔ '0' ≤ c ∧ c ≤ '9' := by
  rw [Char.isDigit, Bool.and_eq_true, decide_eq_true_eq, decide_eq_true_eq]
  exact Iff.rfl

/-- A digit has the value of its distance from 0. -/
theorem digitValue?_of_isDigit {c : Char} (h : c.isDigit = true) :
    digitValue? c = some (c.toNat - '0'.toNat) :=
  if_pos (isDigit_iff.1 h)

/-- Nothing but a digit has a value. -/
theorem digitValue?_of_not_isDigit {c : Char} (h : ¬ c.isDigit = true) : digitValue? c = none :=
  if_neg fun hc => h (isDigit_iff.2 hc)

/-- The value of a digit lies below ten. -/
theorem digitValue_lt {c : Char} (h : c.isDigit = true) : c.toNat - '0'.toNat < 10 := by
  have hle : c.toNat ≤ '9'.toNat := (isDigit_iff.1 h).2
  have hnine : '9'.toNat = '0'.toNat + 9 := rfl
  omega

/-- A digit at the front is kept. -/
theorem digits_cons_of_isDigit {c : Char} (h : c.isDigit = true) (cs : List Char) :
    digits (c :: cs) = c :: digits cs :=
  List.filter_cons_of_pos h

/-- Any other character at the front is passed over. -/
theorem digits_cons_of_not_isDigit {c : Char} (h : ¬ c.isDigit = true) (cs : List Char) :
    digits (c :: cs) = digits cs :=
  List.filter_cons_of_neg h

/-- The places of a text are the digits behind the point. -/
theorem places_point (cs : List Char) : places ('.' :: cs) = (digits cs).length := rfl

/-- What stands before the point adds no place. -/
theorem places_cons {c : Char} (h : c ≠ '.') (cs : List Char) : places (c :: cs) = places cs :=
  congrArg (fun cs => (digits cs).length)
    (List.dropWhile_cons_of_pos (p := (· != '.')) (bne_iff_ne.2 h))

/-- Digits after a whole number lead to a number between it and the next one. -/
theorem ofDigitChars_bounds (n : Nat) (cs : List Char) :
    n * 10 ^ (digits cs).length ≤ Nat.ofDigitChars 10 (digits cs) n ∧
      Nat.ofDigitChars 10 (digits cs) n < (n + 1) * 10 ^ (digits cs).length := by
  induction cs generalizing n with
  | nil => exact ⟨Nat.le_of_eq (Nat.mul_one n), (Nat.lt_succ_self n).trans_eq (Nat.mul_one _).symm⟩
  | cons c cs ih =>
    by_cases hc : c.isDigit = true
    · have hdigit := digitValue_lt hc
      obtain ⟨hlow, hhigh⟩ := ih (10 * n + (c.toNat - '0'.toNat))
      rw [digits_cons_of_isDigit hc, Nat.ofDigitChars_cons, List.length_cons, pow_succ',
        ← Nat.mul_assoc, ← Nat.mul_assoc]
      constructor
      · exact (Nat.mul_le_mul_right _ (by omega)).trans hlow
      · exact hhigh.trans_le (Nat.mul_le_mul_right _ (by omega))
    · rw [digits_cons_of_not_isDigit hc]
      exact ih n

/-- More digits never spell a smaller number. -/
theorem le_ofDigitChars (n : Nat) (cs : List Char) : n ≤ Nat.ofDigitChars 10 (digits cs) n :=
  (Nat.le_mul_of_pos_right n (Nat.pow_pos (by decide))).trans (ofDigitChars_bounds n cs).1

end LedgerClient.Decimal
