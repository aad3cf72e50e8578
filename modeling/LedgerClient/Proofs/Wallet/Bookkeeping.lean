import LedgerClient.Proofs.Wallet.Selecting
import LedgerClient.Proofs.Wallet.Store
import Mathlib.Data.List.DropRight
import Mathlib.Logic.Function.Basic

/-!
# What an account knows after a history

Of each asset an account knows the outputs that were added since the asset was last cleared
(`addedSince`), in the order in which they were added. It is so because an account is like a store
with a shelf for each asset, though it keeps all outputs in one list (`unspentOf_run`): a change
touches the shelf of its asset only.

Balance and selection add up the same outputs in their own ways, one over all of them and the other
in the order of a strategy until there is enough. For a solvent account neither fails for want of
bits (`Solvent.balance_counts`), so that they agree on what can be paid (`funds_are_those_added`).
-/

namespace LedgerClient

open Ledger (Hash256 Unspent)
open Ledger.Unspent (worth)

/-- Amounts that fit together have a sum, from wherever it starts, and the sum is exact. -/
theorem Decimal.Counts.sum? {total : Decimal} {sum : Int} (ht : total.Counts sum) (hsum : 0 ≤ sum)
    {us : List Unspent} (hpos : ∀ u ∈ us, u.IsPositive)
    (hfits : sum + worth us ≤ Decimal.maxMantissa) :
    ∃ t, Decimal.sum? total (us.map (·.value)) = some t ∧ t.Counts (sum + worth us) := by
  induction us generalizing total sum with
  | nil => exact ⟨total, rfl, by rwa [Unspent.worth_nil, Int.add_zero]⟩
  | cons u us ih =>
    have hu := (hpos u (.head _)).count_pos
    have hus : ∀ v ∈ us, v.IsPositive := fun v hv => hpos v (.tail _ hv)
    have hrest := Unspent.worth_nonneg hus
    rw [Unspent.worth_cons] at hfits ⊢
    obtain ⟨t, hadd, htc⟩ := ht.add? (hpos u (.head _)).counts (by omega)
    obtain ⟨t', hsum', ht'⟩ := ih htc (by omega) hus (by omega)
    refine ⟨t', ?_, by rwa [← Int.add_assoc]⟩
    rw [List.map_cons, Decimal.sum?, hadd]
    exact hsum'

namespace Wallet.Account

variable {a : Account} {asset : Hash256}

/-! ## Changes of one asset -/

/-- Whether a change removes the outputs of an asset. -/
def Step.clears (asset : Hash256) : Step → Bool
  | .add _ | .addAll _ => false
  | .clear other => other == asset

/-- Whether a change removes or adds outputs of an asset. -/
def Step.touches (asset : Hash256) (step : Step) : Bool :=
  step.clears asset || step.added.any (·.asset == asset)

/-- The outputs of an asset that a history adds after it last clears the asset. -/
def addedSince (asset : Hash256) (steps : List Step) : List Unspent :=
  Selection.ofAsset asset ((steps.rtakeWhile fun step => !step.clears asset).flatMap Step.added)

/-- One more change clears the asset or adds its outputs to those before. -/
theorem addedSince_concat (asset : Hash256) (steps : List Step) (step : Step) :
    addedSince asset (steps ++ [step]) =
      if step.clears asset = true then []
      else addedSince asset steps ++ Selection.ofAsset asset step.added := by
  rw [addedSince, List.rtakeWhile_concat]
  by_cases hclears : step.clears asset = true
  · rw [if_neg (by simp [hclears]), if_pos hclears]
    rfl
  · rw [if_pos (by simp [hclears]), if_neg hclears, List.flatMap_append, List.flatMap_singleton,
      Selection.ofAsset_append, addedSince]

/-- Changes that do not touch an asset add nothing to it since it was last cleared. -/
theorem addedSince_filter_touches (asset : Hash256) (steps : List Step) :
    addedSince asset (steps.filter (·.touches asset)) = addedSince asset steps := by
  induction steps using List.reverseRecOn with
  | nil => rfl
  | append_singleton steps step ih =>
    rw [List.filter_append, List.filter_singleton, addedSince_concat]
    by_cases htouches : step.touches asset = true
    · rw [htouches]
      show addedSince asset (_ ++ [step]) = _
      rw [addedSince_concat, ih]
    · have hspares := htouches
      rw [Step.touches, Bool.or_eq_true, not_or] at hspares
      obtain ⟨hkeeps, hadds⟩ := hspares
      have hnone : Selection.ofAsset asset step.added = [] := by
        refine Selection.ofAsset_eq_nil fun u hu heq => hadds (List.any_eq_true.2 ⟨u, hu, ?_⟩)
        exact beq_iff_eq.2 heq
      rw [Bool.not_eq_true] at htouches
      rw [htouches, if_neg hkeeps, hnone, List.append_nil]
      show addedSince asset (_ ++ []) = _
      rw [List.append_nil, ih]

/-! ## The store with a shelf for each asset -/

/-- The outputs of each asset, by themselves. -/
abbrev Shelves := Hash256 → List Unspent

namespace Shelves

/-- One more output, on the shelf of its asset. -/
def put (s : Shelves) (u : Unspent) : Shelves := Function.update s u.asset (s u.asset ++ [u])

/-- The shelves after a change. -/
def apply (s : Shelves) : Step → Shelves
  | .add u => s.put u
  | .addAll us => us.foldl put s
  | .clear asset => Function.update s asset []

/-- An output is found on the shelf of its asset, behind the others, and on no other shelf. -/
theorem put_apply (s : Shelves) (u : Unspent) (asset : Hash256) :
    s.put u asset = s asset ++ Selection.ofAsset asset [u] := by
  rw [put, Function.update_apply]
  split
  · next h =>
    rw [Selection.ofAsset_eq_self (List.forall_mem_singleton.2 h.symm), h]
  · next h =>
    rw [Selection.ofAsset_eq_nil (List.forall_mem_singleton.2 (Ne.symm h)), List.append_nil]

/-- So are outputs that are put one after another. -/
theorem foldl_put_apply (s : Shelves) (us : List Unspent) (asset : Hash256) :
    us.foldl put s asset = s asset ++ Selection.ofAsset asset us := by
  induction us generalizing s with
  | nil => exact (List.append_nil _).symm
  | cons u us ih =>
    rw [List.foldl_cons, ih, put_apply, List.append_assoc, ← Selection.ofAsset_append]
    rfl

/-- What a change makes of one shelf. -/
theorem apply_apply (s : Shelves) (step : Step) (asset : Hash256) :
    s.apply step asset =
      if step.clears asset = true then [] else s asset ++ Selection.ofAsset asset step.added := by
  cases step with
  | add u => exact s.put_apply u asset
  | addAll us => exact s.foldl_put_apply us asset
  | clear other =>
    rw [apply, Function.update_apply, Step.clears]
    simp only [beq_iff_eq, eq_comm (a := other)]
    split
    · rfl
    · exact (List.append_nil _).symm

end Shelves

/-- What a change makes of the known outputs of an asset. -/
theorem unspentOf_apply (a : Account) (step : Step) (asset : Hash256) :
    (a.apply step).unspentOf asset =
      if step.clears asset = true then []
      else a.unspentOf asset ++ Selection.ofAsset asset step.added := by
  cases step with
  | add u => exact Selection.ofAsset_append asset a.unspent [u]
  | addAll us => exact Selection.ofAsset_append asset a.unspent us
  | clear other =>
    show (a.unspent.filter fun u => u.asset != other).filter (fun u => u.asset == asset) =
      if (other == asset) = true then [] else a.unspentOf asset ++ []
    rw [List.filter_filter, List.append_nil]
    split
    · next h =>
      obtain rfl := beq_iff_eq.1 h
      exact List.filter_eq_nil_iff.2 fun u _ => by simp
    · next h =>
      refine List.filter_congr fun u _ => ?_
      by_cases hu : u.asset = asset
      · subst hu
        simp only [beq_self_eq_true, Bool.true_and, bne_iff_ne]
        exact fun heq => h (beq_iff_eq.2 heq.symm)
      · simp [hu]

/-- An account is like a store with a shelf for each asset. -/
theorem unspentOf_run_eq_shelves (signer : Signer) (steps : List Step) :
    ((ofSigner signer).run steps).unspentOf = steps.foldl Shelves.apply fun _ => [] := by
  funext asset
  induction steps using List.reverseRecOn with
  | nil => rfl
  | append_singleton steps step ih =>
    rw [run, List.foldl_append, List.foldl_append]
    show (Account.apply (run _ steps) step).unspentOf asset = Shelves.apply _ step asset
    rw [unspentOf_apply, Shelves.apply_apply, ih]

/-- On the shelf of an asset lies what was added since it was last cleared. -/
theorem shelves_eq_addedSince (steps : List Step) (asset : Hash256) :
    steps.foldl Shelves.apply (fun _ => []) asset = addedSince asset steps := by
  induction steps using List.reverseRecOn with
  | nil => rfl
  | append_singleton steps step ih =>
    rw [List.foldl_append, List.foldl_cons, List.foldl_nil, Shelves.apply_apply, ih,
      addedSince_concat]

/-- The outputs of an asset that an account knows are those added since it was last cleared. -/
theorem unspentOf_run (signer : Signer) (steps : List Step) (asset : Hash256) :
    ((ofSigner signer).run steps).unspentOf asset = addedSince asset steps := by
  rw [unspentOf_run_eq_shelves, shelves_eq_addedSince]

/-- An account knows nothing but what was added to it. -/
theorem unspent_run_sublist (a : Account) (steps : List Step) :
    (a.run steps).unspent.Sublist (a.unspent ++ steps.flatMap Step.added) := by
  induction steps generalizing a with
  | nil => exact List.sublist_append_left _ _
  | cons step steps ih =>
    have hstep : (a.apply step).unspent.Sublist (a.unspent ++ step.added) := by
      cases step with
      | add u => exact .refl _
      | addAll us => exact .refl _
      | clear other => exact List.filter_sublist.trans (List.sublist_append_left _ _)
    rw [List.flatMap_cons, ← List.append_assoc]
    exact (ih (a.apply step)).trans (hstep.append (.refl _))

/-- An account is solvent if all that was ever added to it is spendable and not too much. -/
theorem solvent_run {signer : Signer} {steps : List Step}
    (hspendable : ∀ u ∈ steps.flatMap Step.added, u.IsSpendable)
    (hfew : (steps.flatMap Step.added).length < 2 ^ 32) :
    ((ofSigner signer).run steps).Solvent := by
  have hknown := unspent_run_sublist (ofSigner signer) steps
  exact ⟨fun u hu => hspendable u (hknown.subset hu), Nat.lt_of_le_of_lt hknown.length_le hfew⟩

namespace Solvent

/-- The balance of a solvent account is what its outputs of the asset are worth. -/
theorem balance_counts (h : a.Solvent) (asset : Hash256) :
    ∃ total, a.balance asset = .ok total ∧ total.Counts (worth (a.unspentOf asset)) := by
  obtain ⟨total, hsum, htotal⟩ := Decimal.counts_zero.sum? (Int.le_refl 0)
    (fun u (hu : u ∈ a.unspentOf asset) => h.isPositive hu)
    (by rw [Int.zero_add]; exact h.worth_le asset)
  rw [Int.zero_add] at htotal
  exact ⟨total, by rw [balance, hsum], htotal⟩

/-- An account selects an amount exactly if its balance is not less. -/
theorem exists_select_iff (h : a.Solvent) {required total : Decimal} {amount : Int}
    {strategy : Strategy} (hr : required.Counts amount) (hnonneg : 0 ≤ amount)
    (htotal : total.Counts (worth (a.unspentOf asset))) :
    (∃ s, a.select asset required strategy = .ok s) ↔ required.le total = true := by
  rw [hr.le_iff htotal]
  constructor
  · rintro ⟨s, hs⟩
    by_contra hlt
    obtain ⟨_, _, herror, -⟩ := h.select_insufficient strategy hr hnonneg (Int.not_le.1 hlt)
    cases hs.symm.trans herror
  · intro hle
    obtain ⟨s, hs, -⟩ := h.select_covers strategy hr hnonneg hle
    exact ⟨s, hs⟩

end Solvent

/-! ## Every history -/

/-- After any history of spendable additions an account knows of each asset what was added since the
asset was last cleared, whatever happened to other assets; its balance is their exact sum; and an
amount is selected exactly if the balance is not less, whatever the strategy, and refused with the
balance otherwise. -/
theorem funds_are_those_added (signer : Signer) (steps : List Step)
    (hspendable : ∀ u ∈ steps.flatMap Step.added, u.IsSpendable)
    (hfew : (steps.flatMap Step.added).length < 2 ^ 32) (asset : Hash256) :
    ((ofSigner signer).run steps).unspentOf asset = addedSince asset steps ∧
    ((ofSigner signer).run (steps.filter (·.touches asset))).unspentOf asset =
      ((ofSigner signer).run steps).unspentOf asset ∧
    ∃ total, ((ofSigner signer).run steps).balance asset = .ok total ∧
      total.units = Unspent.total (addedSince asset steps) ∧
      ∀ (required : Decimal) (amount : Int) (strategy : Strategy), required.Counts amount →
        0 ≤ amount →
        ((∃ s, ((ofSigner signer).run steps).select asset required strategy = .ok s) ↔
          required.le total = true) ∧
        (∀ s, ((ofSigner signer).run steps).select asset required strategy = .ok s →
          s.selected.Subperm (addedSince asset steps)) ∧
        (¬ required.le total = true → ∃ available shortfall,
          ((ofSigner signer).run steps).select asset required strategy =
            .error (.insufficientFunds asset required available shortfall) ∧
          available.sameNumber total = true) := by
  have hsolvent : ((ofSigner signer).run steps).Solvent := solvent_run hspendable hfew
  have hknown := unspentOf_run signer steps asset
  obtain ⟨total, hbalance, htotal⟩ := hsolvent.balance_counts asset
  refine ⟨hknown, ?_, total, hbalance, ?_, fun required amount strategy hr hnonneg =>
    ⟨hsolvent.exists_select_iff hr hnonneg htotal, fun s hs => ?_, fun hnot => ?_⟩⟩
  · rw [unspentOf_run, unspentOf_run, addedSince_filter_touches]
  · rw [← hknown, Unspent.total_eq fun u hu => hsolvent.isPositive hu]
    exact htotal
  · rw [← hknown]
    exact select_subperm_unspent hs
  · rw [hr.le_iff htotal, Int.not_le] at hnot
    obtain ⟨available, shortfall, herror, havailable, -⟩ :=
      hsolvent.select_insufficient strategy hr hnonneg hnot
    exact ⟨available, shortfall, herror, beq_iff_eq.2 (havailable.trans htotal.symm)⟩

/-- A history of two assets in which the fee asset is cleared once, and the other one later. -/
def sampleHistory : List Step :=
  [.add ⟨.zero, 5, Hash256.feeAsset, Selection.sampleAmount 700⟩, .clear Hash256.feeAsset,
    .addAll Selection.sampleCandidates, .clear .zero]

/-- What an account knows after that history. -/
def sampleKnown : Account := (ofSigner ⟨[0xac], .ok⟩).run sampleHistory

/-- What was added before the fee asset was cleared does not count, what was added afterwards does:
there are 14.5 units, enough for 4 but not for 20. -/
theorem funds_are_those_added_sample :
    ∃ total, sampleKnown.balance Hash256.feeAsset = .ok total ∧
      total.units = (Selection.sampleAmount 1450).units ∧
      (∃ s, sampleKnown.select Hash256.feeAsset (Selection.sampleAmount 400) .smallestFirst =
        .ok s) ∧
      ∃ available shortfall,
        sampleKnown.select Hash256.feeAsset (Selection.sampleAmount 2000) .largestFirst =
          .error (.insufficientFunds Hash256.feeAsset (Selection.sampleAmount 2000) available
            shortfall) ∧
        available.sameNumber total = true := by
  have hspendable : ∀ u ∈ sampleHistory.flatMap Step.added, u.IsSpendable := by
    have hall : ∀ u ∈ sampleHistory.flatMap Step.added, u.value.scale ≤ Fixed8.decimals ∧
        0 < u.value.mantissa * 10 ^ (Fixed8.decimals - u.value.scale) ∧
        u.value.mantissa * 10 ^ (Fixed8.decimals - u.value.scale) < 2 ^ 63 := by decide
    intro u hu
    obtain ⟨hscale, hbounds⟩ := hall u hu
    exact Unspent.isSpendable_iff.2 ⟨_, Decimal.counts_of_scale_le hscale, hbounds⟩
  obtain ⟨-, -, total, hbalance, hunits, hselect⟩ :=
    funds_are_those_added ⟨[0xac], .ok⟩ sampleHistory hspendable (by decide) Hash256.feeAsset
  have hworth : total.units = (Selection.sampleAmount 1450).units := by
    rw [hunits]
    decide +kernel
  have hfour : (Selection.sampleAmount 400).Counts 400000000 := Fixed8.counts_toDecimal _
  have htwenty : (Selection.sampleAmount 2000).Counts 2000000000 := Fixed8.counts_toDecimal _
  refine ⟨total, hbalance, hworth,
    (hselect _ _ .smallestFirst hfour (by decide)).1.2 ?_,
    (hselect _ _ .largestFirst htwenty (by decide)).2.2 ?_⟩
  · rw [Decimal.le, hworth]
    decide +kernel
  · rw [Decimal.le, hworth]
    decide +kernel

end Wallet.Account

end LedgerClient
