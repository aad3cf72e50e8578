import LedgerClient.Ledger.Error
import LedgerClient.Proofs.Amount.Written
import LedgerClient.Proofs.Result

/-!
# Amounts that are converted and printed

A decimal is converted to an amount exactly if its number, taken a hundred million times, is a whole
number of 64 bits, and then the amount counts that number (`Fixed8.exact_in_both_directions`).
Printing a decimal shows its mantissa and its scale, so that what is printed is read back as it was
(`Decimal.parse_toText`); therefore every amount comes back from its decimal and from its text.
-/

namespace LedgerClient

/-! ## Texts without blank characters -/

namespace Text

/-- No digit is a blank. -/
theorem isBlank_of_isDigit {c : Char} (h : c.isDigit = true) : isBlank c = false := by
  obtain ⟨hlow, hhigh⟩ := Decimal.isDigit_iff.1 h
  have hlow' : 48 ≤ c.toNat := hlow
  have hhigh' : c.toNat ≤ 57 := hhigh
  simp [isBlank, blankRanges]
  omega

/-- A text without blanks keeps all its characters at the front when blanks are dropped there. -/
theorem dropWhile_isBlank {cs : List Char} (h : ∀ c ∈ cs, isBlank c = false) :
    cs.dropWhile isBlank = cs := by
  cases cs with
  | nil => rfl
  | cons c cs =>
    refine List.dropWhile_cons_of_neg ?_
    rw [h c (.head _)]
    exact Bool.false_ne_true

/-- A text without blank characters is left as it is. -/
theorem trim_of_forall {s : String} (h : ∀ c ∈ s.toList, isBlank c = false) : trim s = s := by
  have hreverse : ∀ c ∈ s.toList.reverse, isBlank c = false := fun c hc =>
    h c (List.mem_reverse.1 hc)
  rw [trim, trimChars, dropWhile_isBlank h, dropWhile_isBlank hreverse, List.reverse_reverse,
    String.ofList_toList]

end Text

namespace Decimal

/-! ## The digits that are printed -/

/-- A text of digits consists of its digits. -/
theorem digits_of_forall {cs : List Char} (h : ∀ c ∈ cs, c.isDigit = true) : digits cs = cs :=
  List.filter_eq_self.2 h

/-- Padding a number puts digits in front of it. -/
theorem isDigit_of_mem_paddedDigits {c : Char} {width n : Nat} (h : c ∈ paddedDigits width n) :
    c.isDigit = true := by
  rw [paddedDigits] at h
  obtain hzero | hdigit := List.mem_append.1 h
  · rw [List.eq_of_mem_replicate hzero]
    rfl
  · rw [Nat.toString_eq_repr, Nat.toList_repr] at hdigit
    exact Nat.isDigit_of_mem_toDigits (by decide) (by decide) hdigit

/-- A padded number has as many digits as were asked for, or more. -/
theorem le_length_paddedDigits (width n : Nat) : width ≤ (paddedDigits width n).length := by
  simp only [paddedDigits, List.length_append, List.length_replicate]
  omega

/-- Zeros in front leave the number as it is. -/
theorem ofDigitChars_paddedDigits (width n : Nat) :
    Nat.ofDigitChars 10 (paddedDigits width n) 0 = n := by
  rw [paddedDigits, Nat.ofDigitChars_append, Nat.ofDigitChars_replicate_zero, Nat.mul_zero,
    Nat.toString_eq_repr, Nat.toList_repr, Nat.ofDigitChars_ten_toDigits]

/-! ## Reading digits back -/

/-- Digits after the point are read as they are if there is room for all of them. -/
theorem scan_fraction {m k : Nat} {cs : List Char} (hdigits : ∀ c ∈ cs, c.isDigit = true)
    (hm : Nat.ofDigitChars 10 cs m ≤ maxMantissa) (hk : k + cs.length ≤ maxScale) :
    scan true true m k cs = .ok (Nat.ofDigitChars 10 cs m, k + cs.length) := by
  induction cs generalizing m k with
  | nil => rfl
  | cons c cs ih =>
    obtain ⟨hc, hcs⟩ := List.forall_mem_cons.1 hdigits
    rw [List.length_cons] at hk
    rw [Nat.ofDigitChars_cons] at hm ⊢
    have hnext := le_ofDigitChars (10 * m + (c.toNat - '0'.toNat)) cs
    rw [digits_of_forall hcs] at hnext
    rw [scan, digitValue?_of_isDigit hc]
    dsimp only
    rw [if_neg (by omega)]
    by_cases hlast : k + 1 = maxScale
    · -- With the last decimal the text has to end.
      obtain rfl : cs = [] := List.length_eq_zero_iff.1 (by omega)
      rw [if_pos (by simpa using hlast), finish, Nat.ofDigitChars_nil, List.length_singleton, hlast]
    · rw [if_neg (by simpa using hlast), if_pos rfl, ih hcs hm (by omega), List.length_cons,
        Nat.add_assoc, Nat.add_comm 1]

/-- Digits before the point are read as they are if there is room for them. -/
theorem scan_whole {seen : Bool} {m : Nat} {cs : List Char} (tail : List Char)
    (hdigits : ∀ c ∈ cs, c.isDigit = true) (hm : Nat.ofDigitChars 10 cs m ≤ maxMantissa) :
    scan false seen m 0 (cs ++ tail) =
      scan false (seen || ! cs.isEmpty) (Nat.ofDigitChars 10 cs m) 0 tail := by
  induction cs generalizing seen m with
  | nil => simp
  | cons c cs ih =>
    obtain ⟨hc, hcs⟩ := List.forall_mem_cons.1 hdigits
    rw [Nat.ofDigitChars_cons] at hm ⊢
    have hnext := le_ofDigitChars (10 * m + (c.toNat - '0'.toNat)) cs
    rw [digits_of_forall hcs] at hnext
    rw [List.cons_append, scan, digitValue?_of_isDigit hc]
    dsimp only
    rw [if_neg (by omega), if_neg (by simp), if_neg (by simp), ih hcs hm]
    simp

/-- The unsigned part of what is printed. -/
def unsignedText (d : Decimal) : List Char :=
  let ds := paddedDigits (d.scale + 1) d.mantissa.natAbs
  ds.take (ds.length - d.scale) ++
    if d.scale = 0 then [] else '.' :: ds.drop (ds.length - d.scale)

/-- The text of a decimal is its sign, if it is negative, and the text of its size. -/
theorem toList_toText (d : Decimal) :
    d.toText.toList = (if d.isNegative then ['-'] else []) ++ d.unsignedText := by
  rw [toText, unsignedText, String.toList_ofList, List.append_assoc]

/-- The text of the size of a decimal is scanned as its mantissa and scale, digit by digit. -/
theorem scan_unsignedText (d : Decimal) :
    scan false false 0 0 d.unsignedText = .ok (d.mantissa.natAbs, d.scale) := by
  rw [unsignedText]
  set ds := paddedDigits (d.scale + 1) d.mantissa.natAbs with hds
  have hlength : d.scale + 1 ≤ ds.length := le_length_paddedDigits _ _
  have hdigits : ∀ c ∈ ds, c.isDigit = true := fun c => isDigit_of_mem_paddedDigits
  have hwhole : ∀ c ∈ ds.take (ds.length - d.scale), c.isDigit = true := fun c hc =>
    hdigits c (List.mem_of_mem_take hc)
  have hfraction : ∀ c ∈ ds.drop (ds.length - d.scale), c.isDigit = true := fun c hc =>
    hdigits c (List.mem_of_mem_drop hc)
  -- The digits before the point and those behind it, read one after the other, are all.
  have hvalue : Nat.ofDigitChars 10 (ds.drop (ds.length - d.scale))
      (Nat.ofDigitChars 10 (ds.take (ds.length - d.scale)) 0) = d.mantissa.natAbs := by
    rw [← Nat.ofDigitChars_append, List.take_append_drop, hds, ofDigitChars_paddedDigits]
  have hwhole_le := le_ofDigitChars (Nat.ofDigitChars 10 (ds.take (ds.length - d.scale)) 0)
    (ds.drop (ds.length - d.scale))
  rw [digits_of_forall hfraction, hvalue] at hwhole_le
  have hseen : (ds.take (ds.length - d.scale)).isEmpty = false := by
    rw [List.isEmpty_eq_false_iff, ← List.length_pos_iff, List.length_take]
    omega
  rw [scan_whole _ hwhole (hwhole_le.trans d.mantissa_le), hseen]
  by_cases hscale : d.scale = 0
  · rw [hscale, Nat.sub_zero, List.drop_length, Nat.ofDigitChars_nil] at hvalue
    rw [if_pos hscale, hscale, Nat.sub_zero, hvalue]
    rfl
  · have hplaces : 0 + (ds.drop (ds.length - d.scale)).length = d.scale := by
      rw [List.length_drop]
      omega
    have hread := scan_fraction (k := 0) hfraction (hvalue.trans_le d.mantissa_le)
      (hplaces.trans_le d.scale_le)
    rw [hvalue, hplaces] at hread
    rw [if_neg hscale]
    exact hread

/-- A text that starts with a digit has no sign. -/
theorem splitSign_of_isDigit {c : Char} {cs : List Char} (h : c.isDigit = true) :
    splitSign (c :: cs) = (false, c :: cs) := by
  unfold splitSign
  split
  · next heq =>
    cases heq
    cases h
  · next heq =>
    cases heq
    cases h
  · rfl

/-- What is printed after the sign begins with a digit. -/
theorem exists_unsignedText (d : Decimal) : ∃ c cs, d.unsignedText = c :: cs ∧
    c.isDigit = true := by
  have hlength : d.scale + 1 ≤ (paddedDigits (d.scale + 1) d.mantissa.natAbs).length :=
    le_length_paddedDigits _ _
  rw [unsignedText]
  generalize hds : paddedDigits (d.scale + 1) d.mantissa.natAbs = ds at hlength
  have hpos : 0 < (ds.take (ds.length - d.scale)).length := by
    rw [List.length_take]
    omega
  obtain ⟨c, cs, hcs⟩ := List.exists_cons_of_length_pos hpos
  have hc : c ∈ ds := List.mem_of_mem_take (hcs ▸ List.mem_cons_self)
  rw [hcs]
  exact ⟨c, _, rfl, isDigit_of_mem_paddedDigits (hds ▸ hc)⟩

/-- An amount without exponent is read by its sign and its digits. -/
theorem ofPlainChars_eq_ok {cs body : List Char} {negative : Bool} {d : Decimal}
    (hcs : cs.isEmpty = false) (hsplit : splitSign cs = (negative, body))
    (hscan : scan false false 0 0 body = .ok (d.mantissa.natAbs, d.scale))
    (hmantissa : (if negative then -(d.mantissa.natAbs : ℤ) else d.mantissa.natAbs) = d.mantissa) :
    ofPlainChars cs = .ok d := by
  rw [ofPlainChars, hcs, hsplit]
  refine Except.bind_eq_ok_iff.2 ⟨_, hscan, ?_⟩
  dsimp only
  rw [hmantissa, mk?_eq_some d.mantissa_le d.scale_le]

/-- What is printed of a decimal is read back as that decimal, with its scale. -/
theorem parse_toText (d : Decimal) : parse d.toText = .ok d := by
  have hplain : ofPlainChars d.toText.toList = .ok d := by
    rw [toList_toText]
    by_cases hnegative : d.isNegative = true
    · rw [if_pos hnegative]
      refine ofPlainChars_eq_ok rfl rfl d.scan_unsignedText ?_
      have := of_decide_eq_true hnegative
      rw [if_pos rfl]
      omega
    · obtain ⟨c, cs, hcs, hc⟩ := d.exists_unsignedText
      have hscan := d.scan_unsignedText
      rw [hcs] at hscan
      rw [if_neg hnegative, hcs]
      refine ofPlainChars_eq_ok rfl (splitSign_of_isDigit hc) hscan ?_
      have := mt decide_eq_true hnegative
      rw [if_neg Bool.false_ne_true]
      omega
  simp only [parse, hplain]

/-- Blanks are not printed. -/
theorem isBlank_of_mem_toText (d : Decimal) : ∀ c ∈ d.toText.toList, Text.isBlank c = false := by
  have hdigit : ∀ c ∈ paddedDigits (d.scale + 1) d.mantissa.natAbs, Text.isBlank c = false :=
    fun c hc => Text.isBlank_of_isDigit (isDigit_of_mem_paddedDigits hc)
  rw [toList_toText, unsignedText]
  refine List.forall_mem_append.2 ⟨?_, List.forall_mem_append.2 ⟨?_, ?_⟩⟩
  · split
    · exact List.forall_mem_singleton.2 rfl
    · exact List.forall_mem_nil _
  · exact fun c hc => hdigit c (List.mem_of_mem_take hc)
  · split
    · exact List.forall_mem_nil _
    · exact List.forall_mem_cons.2 ⟨rfl, fun c hc => hdigit c (List.mem_of_mem_drop hc)⟩

end Decimal

/-! ## Amounts -/

namespace Fixed8

/-- A decimal that is no amount is refused, with an error that says that the data are invalid. -/
theorem ofDecimal_eq_error {d : Decimal} (h : ∀ a : Fixed8, ¬ d.Counts a.raw) :
    ∃ e, ofDecimal d = .error e ∧ (Ledger.Error.amountRange e).category = .data := by
  cases hd : ofDecimal d with
  | error e => exact ⟨e, rfl, rfl⟩
  | ok a => exact absurd (ofDecimal_eq_ok_iff.1 hd) (h a)

/-- An amount is the amount of its decimal. -/
theorem ofDecimal_toDecimal (a : Fixed8) : ofDecimal a.toDecimal = .ok a :=
  ofDecimal_eq_ok_iff.2 a.counts_toDecimal

/-- An amount is read back from its text. -/
theorem parse_toText (a : Fixed8) : parse a.toText = .ok a := by
  rw [parse, toText, Text.trim_of_forall a.toDecimal.isBlank_of_mem_toText, Decimal.parse_toText]
  dsimp only
  rw [ofDecimal_toDecimal]
  rfl

/-- Conversion is exact in both directions. A decimal is an amount exactly if a hundred million
times its number is a whole number of 64 bits, which the amount then counts, and is refused as
invalid data otherwise; every amount comes back from its decimal and from its text. -/
theorem exact_in_both_directions :
    (∀ (d : Decimal) (a : Fixed8), ofDecimal d = .ok a ↔ d.toRat * 10 ^ decimals = a.raw) ∧
    (∀ d : Decimal, (∃ a, ofDecimal d = .ok a) ↔
      ∃ n : ℤ, -2 ^ 63 ≤ n ∧ n ≤ 2 ^ 63 - 1 ∧ d.toRat * 10 ^ decimals = n) ∧
    (∀ d : Decimal, (¬ ∃ n : ℤ, -2 ^ 63 ≤ n ∧ n ≤ 2 ^ 63 - 1 ∧ d.toRat * 10 ^ decimals = n) →
      ∃ e, ofDecimal d = .error e ∧ (Ledger.Error.amountRange e).category = .data) ∧
    (∀ n : ℤ, -2 ^ 63 ≤ n → n ≤ 2 ^ 63 - 1 → ∃ a : Fixed8, a.raw = n ∧
      ofDecimal a.toDecimal = .ok a ∧ parse a.toText = .ok a) := by
  have hiff : ∀ (d : Decimal) (a : Fixed8), ofDecimal d = .ok a ↔
      d.toRat * 10 ^ decimals = a.raw := fun _ _ =>
    ofDecimal_eq_ok_iff.trans Decimal.counts_iff_toRat
  have hnumber : ∀ (d : Decimal) (a : Fixed8), d.Counts a.raw →
      ∃ n : ℤ, -2 ^ 63 ≤ n ∧ n ≤ 2 ^ 63 - 1 ∧ d.toRat * 10 ^ decimals = n := fun _ a ha =>
    ⟨a.raw, a.min_le, Int.le_sub_one_of_lt a.lt_max, Decimal.counts_iff_toRat.1 ha⟩
  refine ⟨hiff, fun d => ⟨?_, ?_⟩, fun d hnone => ?_, fun n hmin hmax => ?_⟩
  · rintro ⟨a, ha⟩
    exact hnumber d a (ofDecimal_eq_ok_iff.1 ha)
  · rintro ⟨n, hmin, hmax, hn⟩
    exact ⟨⟨n, hmin, Int.lt_of_le_sub_one hmax⟩, (hiff d _).2 hn⟩
  · exact ofDecimal_eq_error fun a ha => hnone (hnumber d a ha)
  · exact ⟨⟨n, hmin, Int.lt_of_le_sub_one hmax⟩, rfl, ofDecimal_toDecimal _, parse_toText _⟩

/-- Both extremes come back, and the largest decimal is refused. -/
theorem exact_in_both_directions_sample :
    (∃ a : Fixed8, a.raw = -2 ^ 63 ∧ ofDecimal a.toDecimal = .ok a ∧ parse a.toText = .ok a) ∧
    (∃ a : Fixed8, a.raw = 2 ^ 63 - 1 ∧ ofDecimal a.toDecimal = .ok a ∧ parse a.toText = .ok a) ∧
    ∃ e, ofDecimal ⟨Decimal.maxMantissa, 0, by decide, by decide⟩ = .error e ∧
      (Ledger.Error.amountRange e).category = .data := by
  obtain ⟨-, -, hrefused, hback⟩ := exact_in_both_directions
  refine ⟨hback _ (by decide) (by decide), hback _ (by decide) (by decide), hrefused _ ?_⟩
  rintro ⟨n, -, hmax, hn⟩
  have hlarge : (2 ^ 63 : ℚ) ≤ n := by
    rw [← hn]
    norm_num [Decimal.toRat, Decimal.maxMantissa, decimals]
  have hle : (2 ^ 63 : ℤ) ≤ n := by exact_mod_cast hlarge
  omega

end Fixed8

end LedgerClient
