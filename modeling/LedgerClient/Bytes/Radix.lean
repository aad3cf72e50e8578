/-!
# Numbers in positional notation

`Radix.digits base n` are the digits of a number in a base, least significant first and without
zeros at the end; `Radix.value` reads digits back. Reading what was written gives the number
(`value_digits`), and writing what was read gives the digits, if each is below the base and the
last is not zero (`digits_value`).
-/

namespace LedgerClient.Radix

/-- The digits of a number, least significant first; zero has none. -/
def digits (base n : Nat) : List Nat :=
  if n = 0 ∨ base < 2 then [] else n % base :: digits base (n / base)
termination_by n
decreasing_by exact Nat.div_lt_self (by omega) (by omega)

/-- The number that digits spell, least significant first. -/
def value (base : Nat) (ds : List Nat) : Nat :=
  ds.foldr (fun d n => d + base * n) 0

@[simp] theorem value_nil (base : Nat) : value base [] = 0 := rfl

@[simp] theorem value_cons (base d : Nat) (ds : List Nat) :
    value base (d :: ds) = d + base * value base ds := rfl

/-- Zero is written without any digit. -/
theorem digits_zero (base : Nat) : digits base 0 = [] := by
  rw [digits]; simp

/-- The lowest digit of a positive number is its remainder, and the others are those of the
quotient. -/
theorem digits_pos {base n : Nat} (hb : 2 ≤ base) (hn : 0 < n) :
    digits base n = n % base :: digits base (n / base) := by
  rw [digits, if_neg (by omega)]

/-- Reading the digits of a number gives the number. -/
theorem value_digits {base : Nat} (hb : 2 ≤ base) (n : Nat) : value base (digits base n) = n := by
  induction n using Nat.strongRecOn with
  | _ n ih =>
    rcases Nat.eq_zero_or_pos n with rfl | hn
    · simp [digits_zero]
    · rw [digits_pos hb hn, value_cons, ih _ (Nat.div_lt_self hn hb), Nat.mod_add_div]

/-- Every digit lies below the base. -/
theorem digits_lt {base n d : Nat} (hb : 2 ≤ base) (hd : d ∈ digits base n) : d < base := by
  induction n using Nat.strongRecOn with
  | _ n ih =>
    rcases Nat.eq_zero_or_pos n with rfl | hn
    · simp [digits_zero] at hd
    · rw [digits_pos hb hn, List.mem_cons] at hd
      rcases hd with rfl | hd
      · exact Nat.mod_lt _ (by omega)
      · exact ih _ (Nat.div_lt_self hn hb) hd

/-- The last digit, which is the most significant, is not zero. -/
theorem getLast?_digits_ne {base n : Nat} (hb : 2 ≤ base) : (digits base n).getLast? ≠ some 0 := by
  induction n using Nat.strongRecOn with
  | _ n ih =>
    rcases Nat.eq_zero_or_pos n with rfl | hn
    · simp [digits_zero]
    · rw [digits_pos hb hn]
      have hlt := Nat.div_lt_self hn hb
      rcases Nat.eq_zero_or_pos (n / base) with hq | hq
      · have hmod : n % base = n := Nat.mod_eq_of_lt ((Nat.div_eq_zero_iff_lt (by omega)).1 hq)
        simp only [hq, digits_zero, List.getLast?_singleton, hmod, ne_eq, Option.some.injEq]
        omega
      · have := ih _ hlt
        rw [digits_pos hb hq] at this ⊢
        rw [List.getLast?_cons_cons]
        exact this

/-- Digits that do not end in zero spell a positive number. -/
theorem value_pos_of_getLast {base : Nat} (hb : 2 ≤ base) {ds : List Nat} (hne : ds ≠ [])
    (hlast : ds.getLast? ≠ some 0) : 0 < value base ds := by
  induction ds with
  | nil => exact absurd rfl hne
  | cons d ds ih =>
    cases ds with
    | nil =>
      simp only [List.getLast?_singleton, ne_eq, Option.some.injEq] at hlast
      simp only [value_cons, value_nil]
      omega
    | cons e es =>
      rw [List.getLast?_cons_cons] at hlast
      have := Nat.mul_pos (show 0 < base by omega) (ih (by simp) hlast)
      rw [value_cons]
      omega

/-- Writing the number that digits spell gives the digits, if none is too large and the most
significant is not zero. -/
theorem digits_value {base : Nat} (hb : 2 ≤ base) {ds : List Nat} (hlt : ∀ d ∈ ds, d < base)
    (hlast : ds.getLast? ≠ some 0) : digits base (value base ds) = ds := by
  induction ds with
  | nil => simp [digits_zero]
  | cons d ds ih =>
    have hpos := value_pos_of_getLast hb (by simp : d :: ds ≠ []) hlast
    have hd : d < base := hlt d (by simp)
    have hlast' : ds.getLast? ≠ some 0 := by
      cases ds with
      | nil => simp
      | cons e es => rwa [List.getLast?_cons_cons] at hlast
    rw [digits_pos hb hpos, value_cons, Nat.add_mul_mod_self_left, Nat.mod_eq_of_lt hd,
      Nat.add_mul_div_left _ _ (by omega), Nat.div_eq_of_lt hd, Nat.zero_add,
      ih (fun e he => hlt e (by simp [he])) hlast']

end LedgerClient.Radix
