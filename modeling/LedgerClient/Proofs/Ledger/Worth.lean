import LedgerClient.Ledger.Output
import LedgerClient.Proofs.Amount.Count
import Mathlib.Algebra.BigOperators.Group.List.Basic
import Mathlib.Data.List.Perm.Subperm

/-!
# What outputs are worth

`Unspent.IsSpendable` is the check that `Unspent.ofTexts` makes of an amount: it is positive and one
that the ledger can express. `Unspent.worth` adds up unspent outputs and `Output.worth` payments,
both in hundred-millionths, which for positive amounts is the exact sum (`Unspent.total_eq`,
`Output.total_eq`). A payment can be made exactly of the decimals that count a positive number in
range (`Output.ofParts_eq_ok_iff`).
-/

namespace LedgerClient.Ledger

/-- A positive amount of the ledger is a decimal that counts one. -/
theorem positiveAmount_eq_ok_iff {purpose : Purpose} {value : Decimal}
    {a : { a : Fixed8 // 0 < a.raw }} :
    positiveAmount purpose value = .ok a ↔ value.Counts a.1.raw := by
  rw [← Fixed8.ofDecimal_eq_ok_iff, positiveAmount]
  cases hd : Fixed8.ofDecimal value with
  | error e => exact ⟨fun h => (nomatch h), fun h => (nomatch h)⟩
  | ok b =>
    by_cases hb : 0 < b.raw
    · simp only [dif_pos hb]
      exact ⟨fun h => by cases h; rfl, fun h => by cases h; rfl⟩
    · simp only [dif_neg hb]
      refine ⟨fun h => (nomatch h), fun h => ?_⟩
      cases h
      exact absurd a.2 hb

namespace Unspent

/-- The amount is one that `ofTexts` takes. -/
def IsSpendable (u : Unspent) : Prop := ∃ a, positiveAmount .unspent u.value = .ok a

/-- The amounts that are taken are those that count a positive number within 63 bits. -/
theorem isSpendable_iff {u : Unspent} :
    u.IsSpendable ↔ ∃ n, u.value.Counts n ∧ 0 < n ∧ n < 2 ^ 63 := by
  constructor
  · rintro ⟨a, ha⟩
    exact ⟨a.1.raw, positiveAmount_eq_ok_iff.1 ha, a.2, a.1.lt_max⟩
  · rintro ⟨n, hn, hpos, hlt⟩
    exact ⟨⟨⟨n, by omega, hlt⟩, hpos⟩, positiveAmount_eq_ok_iff.2 hn⟩

/-- The value counts a positive number of hundred-millionths. -/
def IsPositive (u : Unspent) : Prop := ∃ n, u.value.Counts n ∧ 0 < n

/-- A positive value without too many decimals counts a positive number. -/
theorem isPositive_of_scale_le {u : Unspent} (hscale : u.value.scale ≤ Fixed8.decimals)
    (hpos : 0 < u.value.mantissa) : u.IsPositive := by
  have hcounts := Decimal.counts_of_scale_le hscale
  exact ⟨_, hcounts, hcounts.mantissa_pos_iff.1 hpos⟩

/-- What is taken is positive. -/
theorem IsSpendable.isPositive {u : Unspent} (h : u.IsSpendable) : u.IsPositive := by
  obtain ⟨n, hn, hpos, -⟩ := isSpendable_iff.1 h
  exact ⟨n, hn, hpos⟩

/-- What a positive value counts is its count. -/
theorem IsPositive.counts {u : Unspent} (h : u.IsPositive) : u.value.Counts u.value.count :=
  h.choose_spec.1.count

/-- The count of a positive value is positive. -/
theorem IsPositive.count_pos {u : Unspent} (h : u.IsPositive) : 0 < u.value.count := by
  obtain ⟨n, hn, hpos⟩ := h
  rwa [hn.count_eq]

/-- The count of a value that is taken fits 63 bits. -/
theorem IsSpendable.count_lt {u : Unspent} (h : u.IsSpendable) : u.value.count < 2 ^ 63 := by
  obtain ⟨n, hn, -, hlt⟩ := isSpendable_iff.1 h
  rwa [hn.count_eq]

/-- What unspent outputs hold together, in hundred-millionths. -/
def worth (us : List Unspent) : Int := (us.map fun u => u.value.count).sum

@[simp] theorem worth_nil : worth [] = 0 := rfl

@[simp] theorem worth_cons (u : Unspent) (us : List Unspent) :
    worth (u :: us) = u.value.count + worth us := List.sum_cons

@[simp] theorem worth_append (us vs : List Unspent) : worth (us ++ vs) = worth us + worth vs := by
  rw [worth, List.map_append, List.sum_append, worth, worth]

/-- In which order outputs stand makes no difference to what they are worth. -/
theorem worth_perm {us vs : List Unspent} (h : us.Perm vs) : worth us = worth vs :=
  (h.map _).sum_eq

/-- Positive outputs are worth nothing or more. -/
theorem worth_nonneg {us : List Unspent} (h : ∀ u ∈ us, u.IsPositive) : 0 ≤ worth us := by
  induction us with
  | nil => exact Int.le_refl 0
  | cons u us ih =>
    have hu := (h u (.head _)).count_pos
    have hus := ih fun v hv => h v (.tail _ hv)
    rw [worth_cons]
    omega

/-- Some of the outputs leave a rest. -/
theorem exists_perm_append {us vs : List Unspent} (h : vs.Subperm us) :
    ∃ rest, us.Perm (vs ++ rest) := by
  obtain ⟨ws, hperm, hsublist⟩ := h
  obtain ⟨rest, hrest⟩ := hsublist.exists_perm_append
  exact ⟨rest, hrest.trans (hperm.append_right rest)⟩

/-- A part of the outputs is worth at most the whole. -/
theorem worth_take_le {us : List Unspent} (h : ∀ u ∈ us, u.IsPositive) (k : Nat) :
    worth (us.take k) ≤ worth us := by
  have hrest := worth_nonneg fun u hu => h u (List.mem_of_mem_drop (i := k) hu)
  have hsum := worth_append (us.take k) (us.drop k)
  rw [List.take_append_drop] at hsum
  omega

/-- As many outputs as a list can have are worth less than their number times the largest
amount. -/
theorem worth_le_length {us : List Unspent} (h : ∀ u ∈ us, u.IsSpendable) :
    worth us ≤ us.length * 2 ^ 63 := by
  induction us with
  | nil => exact Int.le_refl 0
  | cons u us ih =>
    have hu := (h u (.head _)).count_lt
    have hus := ih fun v hv => h v (.tail _ hv)
    rw [worth_cons, List.length_cons]
    push_cast
    omega

/-- The exact sum of the values, in the units of decimals. -/
def total (us : List Unspent) : Int := (us.map fun u => u.value.units).sum

@[simp] theorem total_nil : total [] = 0 := rfl

@[simp] theorem total_cons (u : Unspent) (us : List Unspent) :
    total (u :: us) = u.value.units + total us := List.sum_cons

/-- A single output holds its own value. -/
theorem total_singleton (u : Unspent) : total [u] = u.value.units := Int.add_zero _

@[simp] theorem total_append (us vs : List Unspent) : total (us ++ vs) = total us + total vs := by
  rw [total, List.map_append, List.sum_append, total, total]

/-- In which order outputs stand makes no difference to their sum. -/
theorem total_perm {us vs : List Unspent} (h : us.Perm vs) : total us = total vs :=
  (h.map _).sum_eq

/-- Positive values lose nothing when they are counted in hundred-millionths. -/
theorem total_eq {us : List Unspent} (h : ∀ u ∈ us, u.IsPositive) :
    total us = worth us * 10 ^ (Decimal.maxScale - Fixed8.decimals) := by
  induction us with
  | nil => rfl
  | cons u us ih =>
    have hu : u.value.units = _ := (h u (.head _)).counts
    rw [total_cons, ih fun v hv => h v (.tail _ hv), worth_cons, hu, Int.add_mul]

end Unspent

namespace Output

/-- The value of a payment counts its amount. -/
theorem counts_value (o : Output) : o.value.Counts o.amount.raw := o.amount.counts_toDecimal

/-- A payment is made of a decimal exactly if its amount is what the decimal counts. -/
theorem ofParts_eq_ok_iff {asset : Hash256} {value : Decimal} {recipient : Hash160} {o : Output} :
    ofParts asset value recipient = .ok o ↔
      o.asset = asset ∧ value.Counts o.amount.raw ∧ o.recipient = recipient := by
  have hiff := @positiveAmount_eq_ok_iff .output value
  rw [ofParts]
  cases hp : positiveAmount .output value with
  | error e =>
    refine ⟨fun h => (nomatch h), fun h => ?_⟩
    rw [hiff (a := ⟨o.amount, o.amount_pos⟩).2 h.2.1] at hp
    cases hp
  | ok a =>
    have ha := hiff.1 hp
    constructor
    · intro h
      cases h
      exact ⟨rfl, ha, rfl⟩
    · rintro ⟨rfl, hc, rfl⟩
      rw [hiff (a := ⟨o.amount, o.amount_pos⟩).2 hc] at hp
      cases hp
      rfl

/-- The payments of an asset. -/
def ofAsset (asset : Hash256) (os : List Output) : List Output :=
  os.filter fun o => o.asset == asset

/-- The payments of an asset are found in either part of a list. -/
theorem ofAsset_append (asset : Hash256) (os ps : List Output) :
    ofAsset asset (os ++ ps) = ofAsset asset os ++ ofAsset asset ps :=
  List.filter_append _ _

/-- In payments of one asset all are of the asset. -/
theorem ofAsset_eq_self {asset : Hash256} {os : List Output} (h : ∀ o ∈ os, o.asset = asset) :
    ofAsset asset os = os :=
  List.filter_eq_self.2 fun o ho => beq_iff_eq.2 (h o ho)

/-- In payments of other assets none is. -/
theorem ofAsset_eq_nil {asset : Hash256} {os : List Output} (h : ∀ o ∈ os, o.asset ≠ asset) :
    ofAsset asset os = [] :=
  List.filter_eq_nil_iff.2 fun o ho heq => h o ho (beq_iff_eq.1 heq)

/-- What payments amount to, in hundred-millionths. -/
def worth (os : List Output) : Int := (os.map fun o => o.amount.raw).sum

@[simp] theorem worth_nil : worth [] = 0 := rfl

@[simp] theorem worth_cons (o : Output) (os : List Output) :
    worth (o :: os) = o.amount.raw + worth os := List.sum_cons

@[simp] theorem worth_append (os ps : List Output) : worth (os ++ ps) = worth os + worth ps := by
  rw [worth, List.map_append, List.sum_append, worth, worth]

/-- Payments amount to nothing or more. -/
theorem worth_nonneg (os : List Output) : 0 ≤ worth os := by
  induction os with
  | nil => exact Int.le_refl 0
  | cons o os ih =>
    have ho := o.amount_pos
    rw [worth_cons]
    omega

/-- Only no payments at all amount to nothing. -/
theorem worth_eq_zero_iff {os : List Output} : worth os = 0 ↔ os = [] := by
  cases os with
  | nil => simp
  | cons o os =>
    have ho := o.amount_pos
    have hos := worth_nonneg os
    rw [worth_cons]
    exact ⟨fun h => by omega, fun h => (nomatch h)⟩

/-- Payments amount to no more than their number times the largest amount. -/
theorem worth_le_length (os : List Output) : worth os ≤ os.length * 2 ^ 63 := by
  induction os with
  | nil => exact Int.le_refl 0
  | cons o os ih =>
    have ho := o.amount.lt_max
    rw [worth_cons, List.length_cons]
    push_cast
    omega

/-- The exact sum of the values, in the units of decimals. -/
def total (os : List Output) : Int := (os.map fun o => o.value.units).sum

/-- Payments lose nothing when they are counted in hundred-millionths. -/
theorem total_eq (os : List Output) :
    total os = worth os * 10 ^ (Decimal.maxScale - Fixed8.decimals) := by
  induction os with
  | nil => rfl
  | cons o os ih =>
    have ho : o.value.units = _ := o.counts_value
    have hos : (os.map fun o => o.value.units).sum = _ := ih
    rw [total, List.map_cons, List.sum_cons, hos, worth_cons, ho, Int.add_mul]

end Output

end LedgerClient.Ledger
