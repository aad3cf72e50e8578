import LedgerClient.Proofs.Wallet.Selecting

/-!
# The fewest outputs

Spending the most valuable candidates first spends the fewest. Of candidates by falling value, no
choice of so many is worth more than the first so many (`total_le_total_take`), and a selection
stops at the first of them that are worth enough. So any fewer candidates are worth too little,
whichever they are (`largestFirst_takes_fewest`).

What matters of the amounts is only that decimals add them up exactly (`Unspent.Addable`). This is
so of amounts of at most eight decimals whose sum fits the mantissa (`Unspent.addable_of_worth_le`).
-/

namespace LedgerClient

namespace Ledger.Unspent

/-- What any of the outputs are worth together is a decimal. -/
def Addable (us : List Unspent) : Prop :=
  ∀ vs : List Unspent, vs.Subperm us → ∃ d : Decimal, d.units = total vs

/-- Positive amounts can be added up, in any choice of them, if all of them can. -/
theorem addable_of_worth_le {us : List Unspent} (hpos : ∀ u ∈ us, u.IsPositive)
    (hfits : worth us ≤ Decimal.maxMantissa) : Addable us := by
  intro vs hvs
  have hvspos : ∀ v ∈ vs, v.IsPositive := fun v hv => hpos v (hvs.subset hv)
  obtain ⟨ws, hperm⟩ := exists_perm_append hvs
  have hws : ∀ w ∈ ws, w.IsPositive := by
    intro w hw
    exact hpos w (hperm.mem_iff.2 (List.mem_append_right _ hw))
  have hnonneg := worth_nonneg hvspos
  have hrest := worth_nonneg hws
  rw [worth_perm hperm, worth_append] at hfits
  refine ⟨⟨worth vs, Fixed8.decimals, by omega, by decide⟩, ?_⟩
  rw [total_eq hvspos]
  rfl

/-- Outputs with positive values hold nothing or more. -/
theorem total_nonneg {us : List Unspent} (h : ∀ u ∈ us, 0 < u.value.units) : 0 ≤ total us := by
  induction us with
  | nil => exact Int.le_refl 0
  | cons u us ih =>
    obtain ⟨hu, hus⟩ := List.forall_mem_cons.1 h
    have hrest := ih hus
    rw [total_cons]
    omega

/-- Some of the outputs are not worth more than all of them. -/
theorem total_le_of_subperm {us vs : List Unspent} (hpos : ∀ u ∈ us, 0 < u.value.units)
    (h : vs.Subperm us) : total vs ≤ total us := by
  obtain ⟨ws, hperm⟩ := exists_perm_append h
  have hrest : 0 ≤ total ws := by
    refine total_nonneg ?_
    intro w hw
    exact hpos w (hperm.mem_iff.2 (List.mem_append_right _ hw))
  rw [total_perm hperm, total_append]
  omega

/-! ## The most valuable outputs -/

/-- One more output in front, which is worth at least as much as any other, does not lower what the
first so many are worth. -/
theorem total_take_le_total_take_cons {u : Unspent} {us : List Unspent} {n : Nat}
    (hn : n ≤ us.length) (hu : ∀ v ∈ us, v.value.units ≤ u.value.units) :
    total (us.take n) ≤ total ((u :: us).take n) := by
  cases n with
  | zero => exact Int.le_refl 0
  | succ n =>
    have hlast := hu us[n] (List.getElem_mem hn)
    rw [List.take_succ_cons, List.take_succ_eq_append_getElem hn, total_append, total_singleton,
      total_cons]
    omega

/-- Among outputs by falling value, the first are worth the most of as many. -/
theorem total_le_total_take {us vs : List Unspent}
    (hsorted : us.Pairwise fun u v => v.value.units ≤ u.value.units) (h : vs.Sublist us) :
    total vs ≤ total (us.take vs.length) := by
  induction h with
  | slnil => exact Int.le_refl 0
  | cons u hsub ih =>
    obtain ⟨hu, htail⟩ := List.pairwise_cons.1 hsorted
    exact Int.le_trans (ih htail) (total_take_le_total_take_cons hsub.length_le hu)
  | cons_cons u hsub ih =>
    have hrest := ih hsorted.of_cons
    rw [List.length_cons, List.take_succ_cons, total_cons, total_cons]
    omega

end Ledger.Unspent

namespace Wallet.Selection

open Ledger (Hash256 Unspent)

variable {strategy : Strategy} {asset : Hash256} {required : Decimal} {us vs : List Unspent}

/-! ## Enough candidates -/

/-- Some of the candidates of an asset, each of them at most once, are worth an amount. -/
structure Suffices (asset : Hash256) (required : Decimal) (us vs : List Unspent) : Prop where
  subperm : vs.Subperm (ofAsset asset us)
  enough : required.units ≤ Unspent.total vs

/-- So can the first so many candidates in the order of a strategy. -/
theorem addable_arrange (strategy : Strategy) (h : Unspent.Addable us) (n : Nat) :
    ∃ d : Decimal, d.units = Decimal.zero.units + Unspent.total ((arrange strategy us).take n) := by
  rw [Decimal.units_zero, Int.zero_add]
  exact h _ ((List.take_sublist n _).subperm.trans (arrange_perm strategy us).subperm)

/-- What is selected is enough, and without its last candidates it is not. -/
theorem suffices_of_select (hsums : Unspent.Addable (ofAsset asset us)) {s : Selection}
    (h : select strategy asset required us = .ok s) :
    Suffices asset required us s.selected ∧
      ∀ n < s.selected.length, Unspent.total (s.selected.take n) < required.units := by
  obtain ⟨-, htake, hle, -⟩ := select_eq_ok_iff.1 h
  obtain ⟨selected, total, htake', htotal, hshort, -⟩ :=
    takeEnough_units required (addable_arrange strategy hsums)
  cases htake.symm.trans htake'
  simp only [Decimal.units_zero, Int.zero_add] at htotal hshort
  rw [Decimal.le_iff, htotal] at hle
  exact ⟨⟨select_subperm h, hle⟩, hshort⟩

/-- A selection succeeds if some of the candidates are enough. -/
theorem exists_select_of_suffices (strategy : Strategy) (hnonneg : 0 ≤ required.units)
    (hpos : ∀ u ∈ ofAsset asset us, 0 < u.value.units)
    (hsums : Unspent.Addable (ofAsset asset us)) (h : Suffices asset required us vs) :
    ∃ s, select strategy asset required us = .ok s := by
  have hperm := arrange_perm strategy (ofAsset asset us)
  have hall := Int.le_trans h.enough (Unspent.total_le_of_subperm hpos h.subperm)
  obtain ⟨selected, total, htake, htotal, -, henough⟩ :=
    takeEnough_units required (addable_arrange strategy hsums)
  rw [Decimal.units_zero, Int.zero_add] at htotal henough
  have hle : required.units ≤ total.units := by
    rw [htotal]
    rcases henough with rfl | henough
    · rwa [Unspent.total_perm hperm]
    · exact henough
  obtain ⟨change, hsub⟩ := Decimal.exists_sub? hnonneg hle
  refine ⟨⟨selected, total, change⟩, select_eq_ok_iff.2 ⟨?_, htake, Decimal.le_iff.2 hle, hsub⟩⟩
  rw [Decimal.isNegative_iff]
  omega

/-! ## The fewest -/

/-- The most valuable candidates come first. -/
theorem pairwise_arrange_largestFirst (us : List Unspent) :
    (arrange .largestFirst us).Pairwise fun u v => v.value.units ≤ u.value.units := by
  have hsorted :=
    List.pairwise_mergeSort (before_trans .largestFirst) (before_total .largestFirst) us
  exact hsorted.imp Decimal.le_iff.1

/-- Fewer candidates than the most valuable that are just enough are not enough. -/
theorem length_le_of_suffices (hsums : Unspent.Addable (ofAsset asset us)) {s : Selection}
    (h : select .largestFirst asset required us = .ok s) (hvs : Suffices asset required us vs) :
    s.selected.length ≤ vs.length := by
  obtain ⟨-, htake, -⟩ := select_eq_ok_iff.1 h
  obtain ⟨-, hshort⟩ := suffices_of_select hsums h
  have harrange := arrange_perm .largestFirst (ofAsset asset us)
  obtain ⟨ws, hperm, hsub⟩ := hvs.subperm.trans harrange.symm.subperm
  by_contra hfewer
  have hfew := hshort vs.length (by omega)
  have hmost := Unspent.total_le_total_take (pairwise_arrange_largestFirst _) hsub
  have henough := hvs.enough
  -- The first so many candidates are selected, since more of them are.
  rw [List.prefix_iff_eq_take.1 (takeEnough_front htake), List.take_take,
    Nat.min_eq_left (by omega)] at hfew
  rw [Unspent.total_perm hperm, hperm.length_eq] at hmost
  omega

/-- The most valuable candidates are selected exactly when some candidates are enough, and then no
candidates that are enough are fewer. -/
theorem largestFirst_takes_fewest (hnonneg : 0 ≤ required.units)
    (hpos : ∀ u ∈ ofAsset asset us, 0 < u.value.units)
    (hsums : Unspent.Addable (ofAsset asset us)) :
    ((∃ s, select .largestFirst asset required us = .ok s) ↔
      ∃ vs, Suffices asset required us vs) ∧
    ∀ s, select .largestFirst asset required us = .ok s →
      Suffices asset required us s.selected ∧
      ∀ vs, Suffices asset required us vs → s.selected.length ≤ vs.length := by
  constructor
  · constructor
    · intro ⟨s, hs⟩
      exact ⟨s.selected, (suffices_of_select hsums hs).1⟩
    · intro ⟨vs, hvs⟩
      exact exists_select_of_suffices .largestFirst hnonneg hpos hsums hvs
  · intro s hs
    exact ⟨(suffices_of_select hsums hs).1, fun vs hvs => length_le_of_suffices hsums hs hvs⟩

/-- Four units are covered by the 3 and the 10 that were given first. The 10 alone are enough, and
so no more than one output is taken by value. -/
theorem largestFirst_takes_fewest_sample :
    (∃ s, select .asGiven Hash256.feeAsset (sampleAmount 400) sampleCandidates = .ok s ∧
      s.selected.length = 2) ∧
    ∃ s, select .largestFirst Hash256.feeAsset (sampleAmount 400) sampleCandidates = .ok s ∧
      s.selected.length ≤ 1 := by
  have hnonneg : 0 ≤ (sampleAmount 400).units := by decide +kernel
  have hpos : ∀ u ∈ ofAsset Hash256.feeAsset sampleCandidates, 0 < u.value.units := by
    decide +kernel
  have hsums : Unspent.Addable (ofAsset Hash256.feeAsset sampleCandidates) := by
    refine Unspent.addable_of_worth_le isPositive_sampleCandidates ?_
    decide +kernel
  have hten : Suffices Hash256.feeAsset (sampleAmount 400) sampleCandidates
      [⟨.zero, 3, Hash256.feeAsset, sampleAmount 1000⟩] := by
    constructor
    · exact List.singleton_subperm_iff.2 (mem_ofAsset.2 ⟨by simp [sampleCandidates], rfl⟩)
    · decide +kernel
  obtain ⟨hany, hfewest⟩ := largestFirst_takes_fewest hnonneg hpos hsums
  obtain ⟨s, hs⟩ := hany.2 ⟨_, hten⟩
  exact ⟨⟨_, select_sampleCandidates, rfl⟩, s, hs, (hfewest s hs).2 _ hten⟩

end Wallet.Selection

end LedgerClient
