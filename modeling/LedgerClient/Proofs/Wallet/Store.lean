import LedgerClient.Proofs.Wallet.Cover
import LedgerClient.Wallet.Account

/-!
# The outputs that an account knows

What an account knows is the result of a history of additions and removals (`Account.run`). An
account does not look at the places of outputs: they are `Distinct` as long as only `Fresh` outputs
are added (`Distinct.run`).

An account is `Solvent` if its outputs have amounts that `Unspent.ofTexts` takes and are few enough
to be added up; then selecting from it is selecting by counts, without any error but that of too
small funds.
-/

namespace LedgerClient.Wallet.Account

open Ledger (Hash256 Input Unspent)
open Ledger.Unspent (worth)

/-! ## Histories -/

/-- A change of what an account knows. -/
inductive Step where
  /-- One more output. -/
  | add (u : Unspent)
  /-- More outputs. -/
  | addAll (us : List Unspent)
  /-- Without the outputs of an asset. -/
  | clear (asset : Hash256)

/-- The account after a change. -/
def apply (a : Account) : Step → Account
  | .add u => a.add u
  | .addAll us => a.addAll us
  | .clear asset => a.clear asset

/-- The account after a history of changes. -/
def run (a : Account) (steps : List Step) : Account := steps.foldl apply a

/-! ## Places -/

/-- The places of the outputs that an account knows. -/
def places (a : Account) : List Input := a.unspent.map Unspent.toInput

/-- No two of the outputs that an account knows lie at the same place. -/
def Distinct (a : Account) : Prop := a.places.Nodup

/-- The outputs that a change adds. -/
def Step.added : Step → List Unspent
  | .add u => [u]
  | .addAll us => us
  | .clear _ => []

/-- No change adds an output at a place that the account knows already, or two at one place. -/
def Fresh (a : Account) : List Step → Prop
  | [] => True
  | step :: steps =>
    (step.added.map Unspent.toInput).Nodup ∧ (∀ u ∈ step.added, u.toInput ∉ a.places) ∧
      (a.apply step).Fresh steps

/-- Outputs at new places keep places distinct, and clearing does. -/
theorem Distinct.apply {a : Account} {step : Step} (h : a.Distinct)
    (hadded : (step.added.map Unspent.toInput).Nodup)
    (hfresh : ∀ u ∈ step.added, u.toInput ∉ a.places) : (a.apply step).Distinct := by
  have hboth : ((a.unspent ++ step.added).map Unspent.toInput).Nodup := by
    rw [List.map_append]
    refine List.nodup_append.2 ⟨h, hadded, ?_⟩
    rintro i hi _ hadd rfl
    obtain ⟨u, hu, rfl⟩ := List.mem_map.1 hadd
    exact hfresh u hu hi
  cases step with
  | add u => exact hboth
  | addAll us => exact hboth
  | clear asset => exact h.sublist (List.filter_sublist.map _)

/-- The outputs that an account knows after a history of fresh additions lie at distinct places. -/
theorem Distinct.run {a : Account} {steps : List Step} (h : a.Distinct) (hfresh : a.Fresh steps) :
    (a.run steps).Distinct := by
  induction steps generalizing a with
  | nil => exact h
  | cons step steps ih => exact ih (h.apply hfresh.1 hfresh.2.1) hfresh.2.2

/-! ## Selecting -/

/-- The outputs of an account have amounts that `Unspent.ofTexts` takes, and there are fewer than
2³² of them. -/
structure Solvent (a : Account) : Prop where
  spendable : ∀ u ∈ a.unspent, u.IsSpendable
  few : a.unspent.length < 2 ^ 32

/-- The outputs of an asset are the known ones with that asset. -/
theorem mem_unspentOf {a : Account} {asset : Hash256} {u : Unspent} :
    u ∈ a.unspentOf asset ↔ u ∈ a.unspent ∧ u.asset = asset :=
  Selection.mem_ofAsset

/-- Selecting by asset leaves none of them out. -/
theorem ofAsset_unspentOf (a : Account) (asset : Hash256) :
    Selection.ofAsset asset (a.unspentOf asset) = a.unspentOf asset :=
  Selection.ofAsset_ofAsset _ _

/-- The outputs that an account selects are known to it, and each is taken at most once. -/
theorem select_subperm_unspent {a : Account} {asset : Hash256} {required : Decimal}
    {strategy : Strategy} {s : Selection} (h : a.select asset required strategy = .ok s) :
    s.selected.Subperm (a.unspentOf asset) := by
  have hsub := Selection.select_subperm h
  rwa [ofAsset_unspentOf] at hsub

namespace Solvent

variable {a : Account} {strategy : Strategy} {asset : Hash256} {required : Decimal} {amount : Int}

/-- A solvent account knows spendable outputs only. -/
theorem isSpendable (h : a.Solvent) {u : Unspent} (hu : u ∈ a.unspentOf asset) : u.IsSpendable :=
  h.spendable u (mem_unspentOf.1 hu).1

/-- So they are positive. -/
theorem isPositive (h : a.Solvent) {u : Unspent} (hu : u ∈ a.unspentOf asset) : u.IsPositive :=
  (h.isSpendable hu).isPositive

/-- So are the candidates of a selection. -/
theorem isPositive_candidates (h : a.Solvent) (asset : Hash256) :
    ∀ u ∈ Selection.ofAsset asset (a.unspentOf asset), u.IsPositive := by
  rw [ofAsset_unspentOf]
  exact fun u hu => h.isPositive hu

/-- In the order of a strategy they are still spendable. -/
theorem isSpendable_arranged (h : a.Solvent) (strategy : Strategy) (asset : Hash256) :
    ∀ u ∈ Selection.arrange strategy (a.unspentOf asset), u.IsSpendable :=
  fun _ hu => h.isSpendable ((Selection.arrange_perm strategy _).mem_iff.1 hu)

/-- What the outputs of an asset are worth fits a decimal. -/
theorem worth_le (h : a.Solvent) (asset : Hash256) :
    worth (a.unspentOf asset) ≤ Decimal.maxMantissa := by
  have hlen : (a.unspentOf asset).length ≤ a.unspent.length := List.length_filter_le _ _
  have hfew := h.few
  have hworth := Unspent.worth_le_length fun u (hu : u ∈ a.unspentOf asset) => h.isSpendable hu
  simp only [Decimal.maxMantissa]
  omega

/-- An account covers an amount that its outputs of the asset are worth. -/
theorem select_covers (h : a.Solvent) (strategy : Strategy) (hr : required.Counts amount)
    (hnonneg : 0 ≤ amount) (hle : amount ≤ worth (a.unspentOf asset)) :
    ∃ s, a.select asset required strategy = .ok s ∧
      s.Covers (Selection.arrange strategy (a.unspentOf asset)) amount := by
  have hof := ofAsset_unspentOf a asset
  have hcovers := Selection.select_covers strategy hr hnonneg (h.isPositive_candidates asset)
    (by rw [hof]; exact h.worth_le asset) (by rwa [hof])
  rwa [hof] at hcovers

/-- An account does not cover an amount beyond what its outputs of the asset are worth. -/
theorem select_insufficient (h : a.Solvent) (strategy : Strategy) (hr : required.Counts amount)
    (hnonneg : 0 ≤ amount) (hlt : worth (a.unspentOf asset) < amount) :
    ∃ available shortfall, a.select asset required strategy =
        .error (.insufficientFunds asset required available shortfall) ∧
      available.Counts (worth (a.unspentOf asset)) ∧ required.sub? available = some shortfall := by
  have hof := ofAsset_unspentOf a asset
  have hinsufficient := Selection.select_insufficient strategy hr hnonneg
    (h.isPositive_candidates asset) (by rw [hof]; exact h.worth_le asset) (by rwa [hof])
  rwa [hof] at hinsufficient

/-- What an account selects covers the amount. -/
theorem covers_of_select (h : a.Solvent) (hr : required.Counts amount) (hnonneg : 0 ≤ amount)
    {s : Selection} (hs : a.select asset required strategy = .ok s) :
    s.Covers (Selection.arrange strategy (a.unspentOf asset)) amount := by
  have hof := ofAsset_unspentOf a asset
  have hcovers := Selection.covers_of_select hr hnonneg (h.isPositive_candidates asset)
    (by rw [hof]; exact h.worth_le asset) hs
  rwa [hof] at hcovers

end Solvent

end LedgerClient.Wallet.Account
