import LedgerClient.Call.Plan
import LedgerClient.Proofs.Ledger.Worth
import Mathlib.Data.List.Nodup

/-!
# The amounts of a plan

A list of amounts by asset tallies a function of assets (`Tallies`) if it names each asset once,
with what the function gives for it, and only assets for which that is positive. Adding an amount to
a list adds to the function at one asset (`Tallies.addAmount`), so that the amounts that a plan
requires tally what its outputs pay, with the fees on top for the fee asset
(`requiredAmounts_tallies`).
-/

namespace LedgerClient.Call

open Ledger (Hash256 Output)

/-- The assets of a list of amounts. -/
def assetsOf (amounts : List (Hash256 × Decimal)) : List Hash256 := amounts.map Prod.fst

@[simp] theorem assetsOf_cons (asset : Hash256) (amount : Decimal)
    (amounts : List (Hash256 × Decimal)) :
    assetsOf ((asset, amount) :: amounts) = asset :: assetsOf amounts := rfl

@[simp] theorem assetsOf_append (front back : List (Hash256 × Decimal)) :
    assetsOf (front ++ back) = assetsOf front ++ assetsOf back :=
  List.map_append

namespace Plan

/-! ## Adding one amount -/

/-- The first amount of an asset goes to the end of the list. -/
theorem addAmount_of_notMem {asset : Hash256} {amount : Decimal}
    {amounts : List (Hash256 × Decimal)} (h : asset ∉ assetsOf amounts) :
    addAmount asset amount amounts = some (amounts ++ [(asset, amount)]) := by
  induction amounts with
  | nil => rfl
  | cons p rest ih =>
    obtain ⟨a, total⟩ := p
    rw [assetsOf_cons, List.mem_cons, not_or] at h
    rw [addAmount, if_neg fun heq => h.1 heq.symm, ih h.2]
    rfl

/-- A further amount of an asset is added to the total of it, in its place. -/
theorem addAmount_append {asset : Hash256} {amount total : Decimal}
    {front back : List (Hash256 × Decimal)} (h : asset ∉ assetsOf front) :
    addAmount asset amount (front ++ (asset, total) :: back) =
      (total.add? amount).map fun sum => front ++ (asset, sum) :: back := by
  induction front with
  | nil => exact if_pos rfl
  | cons p rest ih =>
    obtain ⟨a, t⟩ := p
    rw [assetsOf_cons, List.mem_cons, not_or] at h
    rw [List.cons_append, addAmount, if_neg fun heq => h.1 heq.symm, ih h.2, Option.map_map]
    rfl

/-- A list of amounts that names an asset, cut at the first place where it does. -/
theorem exists_cut {asset : Hash256} {amounts : List (Hash256 × Decimal)}
    (h : asset ∈ assetsOf amounts) :
    ∃ front total back, amounts = front ++ (asset, total) :: back ∧ asset ∉ assetsOf front := by
  induction amounts with
  | nil => cases h
  | cons p rest ih =>
    obtain ⟨a, total⟩ := p
    by_cases ha : asset = a
    · exact ⟨[], total, rest, by rw [ha]; rfl, List.not_mem_nil⟩
    · rw [assetsOf_cons, List.mem_cons] at h
      obtain ⟨front, t, back, rfl, hfront⟩ := ih (h.resolve_left ha)
      refine ⟨(a, total) :: front, t, back, rfl, ?_⟩
      rw [assetsOf_cons, List.mem_cons, not_or]
      exact ⟨ha, hfront⟩

/-- Assets stay distinct when an amount is added. -/
theorem assetsOf_addAmount_nodup {asset : Hash256} {amount : Decimal}
    {amounts amounts' : List (Hash256 × Decimal)}
    (h : addAmount asset amount amounts = some amounts')
    (hnodup : (assetsOf amounts).Nodup) : (assetsOf amounts').Nodup := by
  by_cases hmem : asset ∈ assetsOf amounts
  · obtain ⟨front, total, back, rfl, hfront⟩ := exists_cut hmem
    rw [addAmount_append hfront, Option.map_eq_some_iff] at h
    obtain ⟨sum, -, rfl⟩ := h
    simpa using hnodup
  · rw [addAmount_of_notMem hmem] at h
    cases h
    rw [assetsOf_append, List.nodup_append]
    refine ⟨hnodup, List.nodup_singleton _, ?_⟩
    rintro a ha _ hb rfl
    obtain rfl : a = asset := List.mem_singleton.1 hb
    exact hmem ha

/-- Positive amounts stay positive when a positive amount is added. -/
theorem mantissa_pos_of_addAmount {asset : Hash256} {amount : Decimal}
    {amounts amounts' : List (Hash256 × Decimal)} (hamount : 0 < amount.mantissa)
    (h : addAmount asset amount amounts = some amounts')
    (hpos : ∀ p ∈ amounts, 0 < p.2.mantissa) : ∀ p ∈ amounts', 0 < p.2.mantissa := by
  by_cases hmem : asset ∈ assetsOf amounts
  · obtain ⟨front, total, back, rfl, hfront⟩ := exists_cut hmem
    rw [addAmount_append hfront, Option.map_eq_some_iff] at h
    obtain ⟨sum, hsum, rfl⟩ := h
    rw [List.forall_mem_append, List.forall_mem_cons] at hpos ⊢
    exact ⟨hpos.1, Decimal.mantissa_pos_of_add? hpos.2.1 hamount hsum, hpos.2.2⟩
  · rw [addAmount_of_notMem hmem] at h
    cases h
    exact List.forall_mem_append.2 ⟨hpos, List.forall_mem_singleton.2 hamount⟩

/-- A list that an amount was added to is not empty. -/
theorem addAmount_ne_nil {asset : Hash256} {amount : Decimal}
    {amounts amounts' : List (Hash256 × Decimal)}
    (h : addAmount asset amount amounts = some amounts') : amounts' ≠ [] := by
  by_cases hmem : asset ∈ assetsOf amounts
  · obtain ⟨front, total, back, rfl, hfront⟩ := exists_cut hmem
    rw [addAmount_append hfront, Option.map_eq_some_iff] at h
    obtain ⟨sum, -, rfl⟩ := h
    exact List.append_ne_nil_of_right_ne_nil _ (List.cons_ne_nil _ _)
  · rw [addAmount_of_notMem hmem] at h
    cases h
    exact List.append_ne_nil_of_right_ne_nil _ (List.cons_ne_nil _ _)

/-! ## What the required amounts keep -/

/-- What holds of no amounts, and still holds when a positive amount is added, holds of the amounts
that outputs pay. -/
theorem paidAmounts_induction {P : List (Hash256 × Decimal) → Prop} (hnil : P [])
    (hadd : ∀ {asset amount amounts amounts'}, 0 < amount.mantissa → P amounts →
      addAmount asset amount amounts = some amounts' → P amounts')
    {outputs : List Output} {amounts : List (Hash256 × Decimal)}
    (h : paidAmounts outputs = some amounts) : P amounts := by
  rw [paidAmounts] at h
  generalize [] = start at h hnil
  induction outputs generalizing start with
  | nil =>
    cases h
    exact hnil
  | cons o outputs ih =>
    rw [List.foldlM_cons] at h
    obtain ⟨next, hnext, hrest⟩ := Option.bind_eq_some_iff.1 h
    exact ih next hrest (hadd (o.counts_value.mantissa_pos_iff.2 o.amount_pos) hnil hnext)

/-- What holds of no amounts, and still holds when a positive amount is added, holds of the amounts
for which funds are required. -/
theorem requiredAmounts_induction {P : List (Hash256 × Decimal) → Prop} (hnil : P [])
    (hadd : ∀ {asset amount amounts amounts'}, 0 < amount.mantissa → P amounts →
      addAmount asset amount amounts = some amounts' → P amounts')
    {outputs : List Output} {fees : Decimal} {amounts : List (Hash256 × Decimal)}
    (h : requiredAmounts outputs fees = some amounts) : P amounts := by
  obtain ⟨paid, hpaid, hfees⟩ := Option.bind_eq_some_iff.1 h
  have hP := paidAmounts_induction hnil hadd hpaid
  split at hfees
  · next hpos => exact hadd hpos hP hfees
  · cases hfees
    exact hP

/-- The assets for which funds are required are distinct. -/
theorem assetsOf_requiredAmounts_nodup {outputs : List Output} {fees : Decimal}
    {amounts : List (Hash256 × Decimal)} (h : requiredAmounts outputs fees = some amounts) :
    (assetsOf amounts).Nodup :=
  requiredAmounts_induction (P := fun amounts => (assetsOf amounts).Nodup) List.nodup_nil
    (fun _ hnodup hadd => assetsOf_addAmount_nodup hadd hnodup) h

/-- The amounts for which funds are required are positive, even if their sums are rounded. -/
theorem mantissa_pos_of_requiredAmounts {outputs : List Output} {fees : Decimal}
    {amounts : List (Hash256 × Decimal)} (h : requiredAmounts outputs fees = some amounts) :
    ∀ p ∈ amounts, 0 < p.2.mantissa :=
  requiredAmounts_induction (P := fun amounts => ∀ p ∈ amounts, 0 < p.2.mantissa)
    (List.forall_mem_nil _) (fun hamount hpos hadd => mantissa_pos_of_addAmount hamount hadd hpos) h

/-- Outputs pay nothing only if there are none. -/
theorem paidAmounts_eq_nil_iff {outputs : List Output} {amounts : List (Hash256 × Decimal)}
    (h : paidAmounts outputs = some amounts) : amounts = [] ↔ outputs = [] := by
  obtain rfl | ⟨front, o, rfl⟩ := outputs.eq_nil_or_concat'
  · cases h
    exact iff_of_true rfl rfl
  · rw [paidAmounts, List.foldlM_append] at h
    obtain ⟨paid, -, hlast⟩ := Option.bind_eq_some_iff.1 h
    rw [List.foldlM_cons] at hlast
    obtain ⟨amounts', hadd, ⟨⟩⟩ := Option.bind_eq_some_iff.1 hlast
    exact iff_of_false (addAmount_ne_nil hadd)
      (List.append_ne_nil_of_right_ne_nil _ (List.cons_ne_nil _ _))

/-- No funds are required only if there are no outputs and no fees. -/
theorem requiredAmounts_eq_nil_iff {outputs : List Output} {fees : Decimal}
    {amounts : List (Hash256 × Decimal)} (h : requiredAmounts outputs fees = some amounts) :
    amounts = [] ↔ outputs = [] ∧ ¬ 0 < fees.mantissa := by
  obtain ⟨paid, hpaid, hfees⟩ := Option.bind_eq_some_iff.1 h
  split at hfees
  · next hpos => exact iff_of_false (addAmount_ne_nil hfees) fun hnone => hnone.2 hpos
  · next hpos =>
    cases hfees
    rw [paidAmounts_eq_nil_iff hpaid, and_iff_left hpos]

end Plan

/-! ## Tallies -/

/-- Each amount counts the positive number of hundred-millionths that a function gives for its
asset. -/
def CountedBy (f : Hash256 → Int) (amounts : List (Hash256 × Decimal)) : Prop :=
  ∀ p ∈ amounts, 0 < f p.1 ∧ p.2.Counts (f p.1)

namespace CountedBy

variable {f : Hash256 → Int} {asset : Hash256} {amount : Decimal}
  {rest : List (Hash256 × Decimal)}

/-- The function is positive at the first asset of the list. -/
theorem pos (h : CountedBy f ((asset, amount) :: rest)) : 0 < f asset := (h _ (.head _)).1

/-- The first amount counts what the function gives for its asset. -/
theorem counts (h : CountedBy f ((asset, amount) :: rest)) : amount.Counts (f asset) :=
  (h _ (.head _)).2

/-- What the function gives for all amounts it gives for all but the first. -/
theorem tail (h : CountedBy f ((asset, amount) :: rest)) : CountedBy f rest :=
  fun p hp => h p (.tail _ hp)

/-- All amounts are positive. -/
theorem mantissa_pos {amounts : List (Hash256 × Decimal)} (h : CountedBy f amounts) :
    ∀ p ∈ amounts, 0 < p.2.mantissa := by
  intro p hp
  obtain ⟨hpos, hcounts⟩ := h p hp
  exact hcounts.mantissa_pos_iff.2 hpos

/-- So the first amount is not zero. -/
theorem isZero_eq_false (h : CountedBy f ((asset, amount) :: rest)) : amount.isZero = false := by
  have hpos := h.pos
  rw [Bool.eq_false_iff, Ne, h.counts.isZero_iff]
  omega

end CountedBy

/-- A list of amounts names each asset once, with the positive number of hundred-millionths that a
function gives for it, and all assets for which the function is not zero. -/
structure Tallies (amounts : List (Hash256 × Decimal)) (f : Hash256 → Int) : Prop where
  nodup : (assetsOf amounts).Nodup
  entries : CountedBy f amounts
  absent : ∀ a ∉ assetsOf amounts, f a = 0

namespace Tallies

variable {amounts : List (Hash256 × Decimal)} {f : Hash256 → Int}

/-- Without amounts there is nothing to tally. -/
theorem nil : Tallies [] fun _ => 0 :=
  ⟨List.nodup_nil, nofun, fun _ _ => rfl⟩

/-- A list tallies a function by its values alone. -/
theorem congr {g : Hash256 → Int} (h : Tallies amounts f) (hfg : ∀ a, f a = g a) :
    Tallies amounts g :=
  funext hfg ▸ h

/-- The assets named are those for which the function is positive. -/
theorem mem_assetsOf_iff (h : Tallies amounts f) {a : Hash256} :
    a ∈ assetsOf amounts ↔ 0 < f a := by
  constructor
  · intro ha
    obtain ⟨p, hp, rfl⟩ := List.mem_map.1 ha
    exact (h.entries p hp).1
  · intro hpos
    by_contra ha
    rw [h.absent a ha] at hpos
    exact Int.lt_irrefl 0 hpos

/-- What is tallied is never negative. -/
theorem nonneg (h : Tallies amounts f) (a : Hash256) : 0 ≤ f a := by
  by_cases ha : a ∈ assetsOf amounts
  · exact Int.le_of_lt (h.mem_assetsOf_iff.1 ha)
  · rw [h.absent a ha]

/-- An asset that was not named is named with its amount. -/
theorem append (h : Tallies amounts f) {asset : Hash256} (hmem : asset ∉ assetsOf amounts)
    {amount : Decimal} {n : Int} (hn : amount.Counts n) (hpos : 0 < n) :
    Tallies (amounts ++ [(asset, amount)]) fun a => if a = asset then n else f a where
  nodup := Plan.assetsOf_addAmount_nodup (Plan.addAmount_of_notMem hmem) h.nodup
  entries p hp := by
    rcases List.mem_append.1 hp with hp | hp
    · have hne : p.1 ≠ asset := fun heq => hmem (heq ▸ List.mem_map_of_mem hp)
      simpa only [if_neg hne] using h.entries p hp
    · rw [List.mem_singleton.1 hp]
      simpa only [if_true] using ⟨hpos, hn⟩
  absent a ha := by
    rw [assetsOf_append, List.mem_append, not_or] at ha
    have hne : a ≠ asset := fun heq => ha.2 (heq ▸ List.mem_singleton_self asset)
    rw [if_neg hne]
    exact h.absent a ha.1

/-- The amount of an asset that was named is replaced. -/
theorem replace {asset : Hash256} {total sum : Decimal} {front back : List (Hash256 × Decimal)}
    (h : Tallies (front ++ (asset, total) :: back) f) {n : Int} (hn : sum.Counts n)
    (hpos : 0 < n) :
    Tallies (front ++ (asset, sum) :: back) fun a => if a = asset then n else f a where
  nodup := by simpa using h.nodup
  entries p hp := by
    have hnodup := h.nodup
    rw [assetsOf_append, assetsOf_cons, List.nodup_append, List.nodup_cons] at hnodup
    obtain ⟨-, ⟨hback, -⟩, hfront⟩ := hnodup
    rcases List.mem_append.1 hp with hp | hp
    · have hne : p.1 ≠ asset := hfront p.1 (List.mem_map_of_mem hp) asset (.head _)
      simpa only [if_neg hne] using h.entries p (List.mem_append_left _ hp)
    · rcases List.mem_cons.1 hp with rfl | hp
      · simpa only [if_true] using ⟨hpos, hn⟩
      · have hne : p.1 ≠ asset := fun heq => hback (heq ▸ List.mem_map_of_mem hp)
        simpa only [if_neg hne] using h.entries p (List.mem_append_right _ (.tail _ hp))
  absent a ha := by
    have hne : a ≠ asset := fun heq => ha (by simp [heq])
    rw [if_neg hne]
    exact h.absent a (by simpa using ha)

/-- Adding a positive amount adds to the function at its asset. -/
theorem addAmount (h : Tallies amounts f) {asset : Hash256} {amount : Decimal} {n : Int}
    (hn : amount.Counts n) (hpos : 0 < n) (hfits : f asset + n ≤ Decimal.maxMantissa) :
    ∃ amounts', Plan.addAmount asset amount amounts = some amounts' ∧
      Tallies amounts' fun a => f a + if a = asset then n else 0 := by
  by_cases hmem : asset ∈ assetsOf amounts
  · obtain ⟨front, total, back, rfl, hfront⟩ := Plan.exists_cut hmem
    obtain ⟨htotal, hcounts⟩ : 0 < f asset ∧ total.Counts (f asset) :=
      h.entries (asset, total) (by simp)
    obtain ⟨sum, hsum, hsumc⟩ := hcounts.add? hn (by omega)
    refine ⟨_, by rw [Plan.addAmount_append hfront, hsum]; rfl, ?_⟩
    refine (h.replace hsumc (by omega)).congr fun a => ?_
    split
    next heq => rw [heq]
    next => exact (Int.add_zero _).symm
  · refine ⟨_, Plan.addAmount_of_notMem hmem, (h.append hmem hn hpos).congr fun a => ?_⟩
    split
    next heq => rw [heq, h.absent asset hmem, Int.zero_add]
    next => exact (Int.add_zero _).symm

end Tallies

/-! ## What a plan requires -/

/-- What outputs pay of an asset, in hundred-millionths. -/
def paid (outputs : List Output) (asset : Hash256) : Int :=
  Output.worth (Output.ofAsset asset outputs)

/-- What is required of an asset: what the outputs pay, and the fees if it is the fee asset. -/
def required (outputs : List Output) (fees : Int) (asset : Hash256) : Int :=
  paid outputs asset + if asset = Hash256.feeAsset then fees else 0

/-- One more payment adds its amount to what is paid of its asset. -/
theorem paid_cons (o : Output) (outputs : List Output) (asset : Hash256) :
    paid (o :: outputs) asset =
      (if asset = o.asset then o.amount.raw else 0) + paid outputs asset := by
  by_cases h : asset = o.asset
  · rw [if_pos h, paid, Output.ofAsset, List.filter_cons_of_pos (by simp [h])]
    exact Output.worth_cons _ _
  · rw [if_neg h, paid, Output.ofAsset, List.filter_cons_of_neg (by simpa using Ne.symm h)]
    exact (Int.zero_add _).symm

/-- What is paid of an asset is never negative. -/
theorem paid_nonneg (outputs : List Output) (asset : Hash256) : 0 ≤ paid outputs asset :=
  Output.worth_nonneg _

/-- What is paid of an asset is bounded by the number of payments. -/
theorem paid_le_length (outputs : List Output) (asset : Hash256) :
    paid outputs asset ≤ outputs.length * 2 ^ 63 := by
  have hlen : (Output.ofAsset asset outputs).length ≤ outputs.length := List.length_filter_le _ _
  have hworth := Output.worth_le_length (Output.ofAsset asset outputs)
  rw [paid]
  omega

namespace Plan

/-- Going through outputs adds what they pay to the function. -/
theorem foldlM_tallies {outputs : List Output} {amounts : List (Hash256 × Decimal)}
    {f : Hash256 → Int} (h : Tallies amounts f)
    (hfits : ∀ a, f a + paid outputs a ≤ Decimal.maxMantissa) :
    ∃ amounts', outputs.foldlM (fun amounts o => addAmount o.asset o.value amounts) amounts =
        some amounts' ∧ Tallies amounts' fun a => f a + paid outputs a := by
  induction outputs generalizing amounts f with
  | nil => exact ⟨amounts, rfl, h.congr fun a => (Int.add_zero _).symm⟩
  | cons o outputs ih =>
    have hrest := paid_nonneg outputs
    have hhead : f o.asset + o.amount.raw ≤ Decimal.maxMantissa := by
      have := hfits o.asset
      rw [paid_cons, if_pos rfl] at this
      have := hrest o.asset
      omega
    obtain ⟨next, hadd, hnext⟩ := h.addAmount o.counts_value o.amount_pos hhead
    obtain ⟨amounts', hfold, hall⟩ := ih hnext fun a => by
      rw [Int.add_assoc, ← paid_cons]
      exact hfits a
    refine ⟨amounts', by rw [List.foldlM_cons, hadd]; exact hfold, hall.congr fun a => ?_⟩
    rw [Int.add_assoc, ← paid_cons]

/-- The amounts that a plan requires tally what its outputs pay and the fees. -/
theorem requiredAmounts_tallies {outputs : List Output} {fees : Decimal} {n : Int}
    (hn : fees.Counts n) (hnonneg : 0 ≤ n)
    (hfits : ∀ a, required outputs n a ≤ Decimal.maxMantissa) :
    ∃ amounts, requiredAmounts outputs fees = some amounts ∧
      Tallies amounts (required outputs n) := by
  have hpaid : ∀ a, 0 + paid outputs a ≤ Decimal.maxMantissa := fun a => by
    have := hfits a
    rw [required] at this
    split at this <;> omega
  obtain ⟨amounts, hfold, htally⟩ := foldlM_tallies .nil hpaid
  have htally' := htally.congr fun a => Int.zero_add _
  by_cases hpos : 0 < n
  · obtain ⟨amounts', hadd, hall⟩ := htally'.addAmount hn hpos (by
      simpa [required] using hfits Hash256.feeAsset)
    refine ⟨amounts', ?_, hall⟩
    rw [requiredAmounts, paidAmounts, hfold]
    exact (if_pos (hn.mantissa_pos_iff.2 hpos)).trans hadd
  · refine ⟨amounts, ?_, htally'.congr fun a => ?_⟩
    · rw [requiredAmounts, paidAmounts, hfold]
      exact if_neg fun h => hpos (hn.mantissa_pos_iff.1 h)
    · rw [required, show n = 0 by omega]
      split <;> exact (Int.add_zero _).symm

end Plan

end LedgerClient.Call
