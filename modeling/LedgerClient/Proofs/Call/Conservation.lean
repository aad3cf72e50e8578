import LedgerClient.Proofs.Call.Building

/-!
# What a call spends and pays

Of no asset does a call lose or make anything (`build_settles`): what it spends of the asset is what
it pays of it, the change included, and of the fee asset both fees besides. This holds course by
course (`Course.settles`): an asset that the amounts name is settled by `Funded.worth_ofAsset`, and
of every other asset nothing is required, spent or paid back.
-/

namespace LedgerClient.Call

open Ledger (Hash256 Output Unspent)
open Wallet (Account)
open Wallet.Selection (ofAsset)

/-- A call settles its plan: it spends some of the account's outputs, and pays what the plan asks
for, the fees, and the change. -/
structure Settles (p : Plan) (c : Prepared) (account : Account) (networkFee systemFee : Fixed8)
    (spent : List Unspent) (change : List Output) : Prop where
  account_eq : p.account = some account
  networkFee_is : FeeIs p.networkFee networkFee
  systemFee_is : FeeIs p.systemFee systemFee
  /-- Each of the account's outputs is spent at most once. -/
  subperm : spent.Subperm account.unspent
  inputs_eq : c.transaction.inputs = spent.map Unspent.toInput
  /-- What is spent of an asset is what is paid of it, and the fees if it is the fee asset. -/
  balance : ∀ asset, Unspent.total (ofAsset asset spent) =
    Output.total (Output.ofAsset asset c.transaction.outputs) +
      if asset = Hash256.feeAsset then networkFee.toDecimal.units + systemFee.toDecimal.units else 0
  outputs_eq : c.transaction.outputs = p.outputs ++ change
  /-- Change is paid at most once for an asset. -/
  change_nodup : (change.map Output.asset).Nodup
  change_pos : ∀ o ∈ change, 0 < o.value.units
  recipient_eq : ∀ o ∈ change, o.recipient = account.scriptHash
  gas_eq : c.transaction.gas = systemFee

namespace Course

variable {p : Plan}

/-- Counted in hundred-millionths, what is spent of an asset is what is required and the change. -/
theorem worth_ofAsset (r : Course p) (hp : p.Bounded) (asset : Hash256) :
    Unspent.worth (ofAsset asset r.spent) =
      required p.outputs r.feeCount asset + Output.worth (Output.ofAsset asset r.change) := by
  have htallies := r.tallies hp
  by_cases hasset : asset ∈ assetsOf r.amounts
  · exact r.funded.worth_ofAsset (r.solvent hp) htallies.entries htallies.nodup asset hasset
  · obtain ⟨hspent, hchange⟩ := r.funded.asset_ne hasset
    rw [Wallet.Selection.ofAsset_eq_nil hspent, Output.ofAsset_eq_nil hchange,
      htallies.absent asset hasset]
    rfl

/-- The call of a course settles its plan: what it spends of an asset is what it pays of it, with
both fees where they are due. -/
theorem settles (r : Course p) (hp : p.Bounded) :
    Settles p r.prepared r.account r.networkFee r.systemFee r.spent r.change where
  account_eq := r.account_eq
  networkFee_is := r.networkFee_is
  systemFee_is := r.systemFee_is
  subperm := r.subperm
  inputs_eq := rfl
  balance asset := by
    have hspent : ∀ u ∈ ofAsset asset r.spent, u.IsPositive := fun u hu =>
      ((r.solvent hp).spendable u (r.subperm.subset (List.mem_of_mem_filter hu))).isPositive
    have hnetwork : r.networkFee.toDecimal.units = _ := r.networkFee.counts_toDecimal
    have hsystem : r.systemFee.toDecimal.units = _ := r.systemFee.counts_toDecimal
    show _ = Output.total (Output.ofAsset asset (p.outputs ++ r.change)) + _
    rw [Unspent.total_eq hspent, r.worth_ofAsset hp, Output.total_eq, Output.ofAsset_append,
      Output.worth_append, hnetwork, hsystem, required, paid, feeCount]
    split <;> ring
  outputs_eq := rfl
  change_nodup := r.funded.change_sublist.nodup (r.tallies hp).nodup
  change_pos o _ := by
    have ho : o.value.units = _ := o.counts_value
    rw [ho]
    exact Int.mul_pos o.amount_pos (by decide)
  recipient_eq := r.funded.recipient_eq
  gas_eq := rfl

end Course

/-- A call that is built from a plan settles it. -/
theorem build_settles {p : Plan} {c : Prepared} (hp : p.Bounded) (h : p.build = .ok c) :
    ∃ account networkFee systemFee spent change,
      Settles p c account networkFee systemFee spent change := by
  obtain ⟨r, rfl⟩ := build_eq_ok_iff.1 h
  exact ⟨_, _, _, _, _, r.settles hp⟩

/-- The sample is built and settled. -/
theorem build_settles_sample : samplePlan.Bounded ∧ ∃ c, samplePlan.build = .ok c ∧
    ∃ account networkFee systemFee spent change,
      Settles samplePlan c account networkFee systemFee spent change := by
  have hbuild := build_eq_ok_iff.2 ⟨sampleCourse, rfl⟩
  exact ⟨samplePlan_bounded, _, hbuild, build_settles samplePlan_bounded hbuild⟩

end LedgerClient.Call
