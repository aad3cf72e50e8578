import LedgerClient.Bytes.Radix

/-!
# Digits in another base

A list of digits, most significant first, is told by two numbers: how many zeros stand in front and
what the digits spell. Zeros in front add nothing to what is spelled, and the digits of a number
have none (`padded`). So the same two numbers in another base are another list, and going back gives
the first list again (`rebase_rebase`).
-/

namespace LedgerClient.Radix

variable {base zeros n : Nat} {ds : List Nat}

/-- The digits of a number, most significant first, behind so many zeros. -/
def padded (base zeros n : Nat) : List Nat := List.replicate zeros 0 ++ (digits base n).reverse

/-- How many zeros stand in front. -/
def leadingZeros (ds : List Nat) : Nat := (ds.takeWhile (· == 0)).length

/-- Digits in one base for digits in another: the same number behind as many zeros. -/
def rebase (source target : Nat) (ds : List Nat) : List Nat :=
  padded target (leadingZeros ds) (value source ds.reverse)

/-! ## Zeros in front -/

/-- Zeros before digits that do not start with one are counted. -/
theorem leadingZeros_replicate_append (hds : ds.head? ≠ some 0) :
    leadingZeros (List.replicate zeros 0 ++ ds) = zeros := by
  have hzeros : ∀ d ∈ List.replicate zeros 0, (d == 0) = true := by
    intro d hd
    rw [List.eq_of_mem_replicate hd]
    rfl
  have hnone : ds.takeWhile (· == 0) = [] := by
    cases ds with
    | nil => rfl
    | cons d ds =>
      rw [List.takeWhile_cons, if_neg]
      rintro hd
      exact hds (congrArg some (eq_of_beq hd))
  rw [leadingZeros, List.takeWhile_append_of_pos hzeros, hnone, List.append_nil,
    List.length_replicate]

/-- Zeros behind the highest digit add nothing. -/
theorem value_append_replicate : value base (ds ++ List.replicate zeros 0) = value base ds := by
  induction ds with
  | nil =>
    induction zeros with
    | zero => rfl
    | succ zeros ih =>
      rw [List.nil_append, value_nil] at ih ⊢
      rw [List.replicate_succ, value_cons, ih, Nat.mul_zero]
  | cons d ds ih => rw [List.cons_append, value_cons, value_cons, ih]

/-- So zeros in front add nothing to what is spelled from the front. -/
theorem value_reverse_replicate_append :
    value base (List.replicate zeros 0 ++ ds).reverse = value base ds.reverse := by
  rw [List.reverse_append, List.reverse_replicate, value_append_replicate]

/-! ## The two numbers of a list -/

/-- The first of the two numbers of a list is read off it. -/
theorem leadingZeros_padded (hbase : 2 ≤ base) : leadingZeros (padded base zeros n) = zeros := by
  refine leadingZeros_replicate_append ?_
  rw [List.head?_reverse]
  exact getLast?_digits_ne hbase

/-- So is the second. -/
theorem value_padded (hbase : 2 ≤ base) : value base (padded base zeros n).reverse = n := by
  rw [padded, value_reverse_replicate_append, List.reverse_reverse, value_digits hbase]

/-- Every digit of a padded list lies below the base. -/
theorem lt_of_mem_padded (hbase : 2 ≤ base) : ∀ d ∈ padded base zeros n, d < base := by
  intro d hd
  rcases List.mem_append.1 hd with hzero | hdigit
  · rw [List.eq_of_mem_replicate hzero]
    exact Nat.zero_lt_of_lt hbase
  · exact digits_lt hbase (List.mem_reverse.1 hdigit)

/-- Without a zero in front, digits are those of the number that they spell. -/
theorem digits_value_reverse (hbase : 2 ≤ base) (hlt : ∀ d ∈ ds, d < base)
    (hds : ds.head? ≠ some 0) : digits base (value base ds.reverse) = ds.reverse := by
  refine digits_value hbase (fun d hd => hlt d (List.mem_reverse.1 hd)) ?_
  rw [List.getLast?_reverse]
  exact hds

/-- Digits are those of their two numbers. -/
theorem padded_eq (hbase : 2 ≤ base) (hlt : ∀ d ∈ ds, d < base) :
    padded base (leadingZeros ds) (value base ds.reverse) = ds := by
  induction ds with
  | nil => rw [List.reverse_nil, value_nil, padded, digits_zero]; rfl
  | cons d ds ih =>
    by_cases hd : d = 0
    · subst hd
      have hzeros : leadingZeros (0 :: ds) = leadingZeros ds + 1 := rfl
      have hvalue : value base (0 :: ds).reverse = value base ds.reverse :=
        @value_reverse_replicate_append base 1 ds
      have htail := ih fun e he => hlt e (List.mem_cons_of_mem 0 he)
      rw [padded] at htail
      rw [hzeros, hvalue, padded, List.replicate_succ, List.cons_append, htail]
    · have hhead : (d :: ds).head? ≠ some 0 := fun h => hd (Option.some.inj h)
      have hzeros : leadingZeros (d :: ds) = 0 := @leadingZeros_replicate_append 0 (d :: ds) hhead
      rw [hzeros, padded, digits_value_reverse hbase hlt hhead, List.reverse_reverse]
      rfl

/-! ## There and back -/

/-- Digits in another base and back are the digits. -/
theorem rebase_rebase {source target : Nat} (hsource : 2 ≤ source) (htarget : 2 ≤ target)
    (hlt : ∀ d ∈ ds, d < source) : rebase target source (rebase source target ds) = ds := by
  rw [rebase, rebase, leadingZeros_padded htarget, value_padded htarget, padded_eq hsource hlt]

end LedgerClient.Radix
