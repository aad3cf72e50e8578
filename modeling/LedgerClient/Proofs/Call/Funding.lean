import LedgerClient.Proofs.Call.Amounts
import LedgerClient.Proofs.Result
import LedgerClient.Proofs.Wallet.Store

/-!
# Funding a plan

`Funded account strategy amounts spent change` is a successful run of `Plan.fund`, one asset after
the other, with the outputs that it spends and the change that it pays back (`fund_eq_ok_iff`). All
that is said about funding is said by induction on such runs:

* each of the account's outputs is spent at most once (`Funded.subperm`), because the assets of
  a plan's amounts are distinct and the outputs of two assets are different;
* for each asset, what is spent is what is required and the change (`Funded.worth_ofAsset`);
* a solvent account funds the amounts exactly if its outputs of each asset are worth what is
  required (`exists_funded`, `Funded.le_worth`).
-/

namespace LedgerClient.Call

open Ledger (Hash160 Hash256 Input Output Unspent)
open Wallet (Account Selection Strategy)
open Wallet.Selection (ofAsset)

/-- A run of `Plan.fund` over amounts, with the outputs spent and the change. -/
inductive Funded (account : Account) (strategy : Strategy) :
    List (Hash256 × Decimal) → List Unspent → List Output → Prop
  | nil : Funded account strategy [] [] []
  | skip {asset amount rest spent change} : amount.isZero = true →
      Funded account strategy rest spent change →
      Funded account strategy ((asset, amount) :: rest) spent change
  | cover {asset amount rest spent change s os} : amount.isZero = false →
      account.select asset amount strategy = .ok s →
      Plan.changeOf account.scriptHash asset s = .ok os →
      Funded account strategy rest spent change →
      Funded account strategy ((asset, amount) :: rest) (s.selected ++ spent) (os ++ change)

/-- Funding succeeds along its runs, with the inputs that spend the outputs. -/
theorem fund_eq_ok_iff {account : Account} {strategy : Strategy}
    {amounts : List (Hash256 × Decimal)} {funds : Plan.Funds} :
    Plan.fund account strategy amounts = .ok funds ↔
      ∃ spent, Funded account strategy amounts spent funds.change ∧
        funds.inputs = spent.map Unspent.toInput := by
  constructor
  · intro h
    induction amounts generalizing funds with
    | nil =>
      cases h
      exact ⟨[], .nil, rfl⟩
    | cons p rest ih =>
      obtain ⟨asset, amount⟩ := p
      rw [Plan.fund] at h
      by_cases hzero : amount.isZero = true
      · rw [if_pos hzero] at h
        obtain ⟨spent, hrun, hinputs⟩ := ih h
        exact ⟨spent, .skip hzero hrun, hinputs⟩
      · rw [if_neg hzero] at h
        obtain ⟨s, hs, h⟩ := Except.bind_eq_ok_iff.1 h
        obtain ⟨os, hos, h⟩ := Except.bind_eq_ok_iff.1 h
        obtain ⟨restFunds, hrest, h⟩ := Except.bind_eq_ok_iff.1 h
        obtain ⟨spent, hrun, hinputs⟩ := ih hrest
        cases h
        refine ⟨s.selected ++ spent, ?_, by rw [List.map_append, hinputs]⟩
        exact .cover (Bool.eq_false_iff.2 hzero) (Except.mapError_eq_ok_iff.1 hs) hos hrun
  · rintro ⟨spent, hrun, hinputs⟩
    obtain ⟨inputs, change⟩ := funds
    subst hinputs
    replace hrun : Funded account strategy amounts spent change := hrun
    -- Now by the run: each of its steps is the one that funding takes.
    induction hrun with
    | nil => rfl
    | skip hzero _ ih =>
      rw [Plan.fund, if_pos hzero]
      exact ih
    | cover hzero hs hos _ ih =>
      rw [Plan.fund, if_neg (Bool.eq_false_iff.1 hzero), hs, ih, List.map_append]
      exact Except.bind_eq_ok_iff.2 ⟨_, rfl, Except.bind_eq_ok_iff.2 ⟨_, hos, rfl⟩⟩

/-! ## Change -/

/-- The change of a selection is nothing, or one payment of its asset to the account. -/
theorem changeOf_cases {account : Hash160} {asset : Hash256} {s : Selection} {os : List Output}
    (h : Plan.changeOf account asset s = .ok os) :
    os = [] ∨ ∃ o, os = [o] ∧ o.asset = asset ∧ o.recipient = account := by
  rw [Plan.changeOf] at h
  split at h
  · split at h
    · next o ho =>
      cases h
      have := Output.ofParts_eq_ok_iff.1 ho
      exact .inr ⟨o, rfl, this.1, this.2.2⟩
    · cases h
  · cases h
    exact .inl rfl

/-- The change of what covers an amount can be paid back: it is less than one of the outputs, each
of which is in range. -/
theorem exists_changeOf (account : Hash160) (asset : Hash256) {s : Selection} {us : List Unspent}
    {amount : Int} (hs : s.Covers us amount) (hnonneg : 0 ≤ amount)
    (hus : ∀ u ∈ us, u.IsSpendable) :
    ∃ os, Plan.changeOf account asset s = .ok os ∧
      Output.worth os = Unspent.worth s.selected - amount := by
  have henough := hs.enough
  rw [Plan.changeOf]
  by_cases hchange : s.hasChange = true
  · have hlt := hs.hasChange_iff.1 hchange
    obtain ⟨u, hu, hbound⟩ := hs.change_lt hnonneg hlt
    have hmax := (hus u (hs.isPrefix.subset hu)).count_lt
    let o : Output := ⟨asset, ⟨Unspent.worth s.selected - amount, by omega, by omega⟩, account,
      by show 0 < Unspent.worth s.selected - amount; omega⟩
    have ho : Output.ofParts asset s.change account = .ok o :=
      Output.ofParts_eq_ok_iff.2 ⟨rfl, hs.change, rfl⟩
    refine ⟨[o], by rw [if_pos hchange, ho], ?_⟩
    rw [Output.worth_cons, Output.worth_nil, Int.add_zero]
  · have hge : ¬ amount < Unspent.worth s.selected := fun h => hchange (hs.hasChange_iff.2 h)
    refine ⟨[], if_neg hchange, ?_⟩
    rw [Output.worth_nil]
    omega

namespace Funded

variable {account : Account} {strategy : Strategy} {amounts : List (Hash256 × Decimal)}
  {spent : List Unspent} {change : List Output}

/-- The assets of the change are among those of the amounts, in order and each at most once. -/
theorem change_sublist (h : Funded account strategy amounts spent change) :
    (change.map Output.asset).Sublist (assetsOf amounts) := by
  induction h with
  | nil => exact .slnil
  | skip _ _ ih => exact ih.cons _
  | cover _ _ hos _ ih =>
    rcases changeOf_cases hos with rfl | ⟨o, rfl, hasset, -⟩
    · exact ih.cons _
    · rw [List.singleton_append, List.map_cons, hasset]
      exact ih.cons_cons _

/-- Change goes back to the account. -/
theorem recipient_eq (h : Funded account strategy amounts spent change) :
    ∀ o ∈ change, o.recipient = account.scriptHash := by
  induction h with
  | nil => exact fun _ h => nomatch h
  | skip _ _ ih => exact ih
  | cover _ _ hos _ ih =>
    intro o ho
    rcases List.mem_append.1 ho with ho | ho
    · rcases changeOf_cases hos with rfl | ⟨o', rfl, -, hrecipient⟩
      · cases ho
      · rwa [List.mem_singleton.1 ho]
    · exact ih o ho

/-! ## Spending once -/

/-- What is selected for an asset is of that asset. -/
theorem select_asset {asset : Hash256} {amount : Decimal} {s : Selection}
    (h : account.select asset amount strategy = .ok s) : ∀ u ∈ s.selected, u.asset = asset :=
  fun _ hu => (Account.mem_unspentOf.1 ((Account.select_subperm_unspent h).subset hu)).2

/-- What is spent are outputs of the assets of the amounts. -/
theorem asset_mem (h : Funded account strategy amounts spent change) :
    ∀ u ∈ spent, u.asset ∈ assetsOf amounts := by
  induction h with
  | nil => exact fun _ h => nomatch h
  | skip _ _ ih => exact fun u hu => .tail _ (ih u hu)
  | cover _ hs _ _ ih =>
    intro u hu
    rcases List.mem_append.1 hu with hu | hu
    · rw [select_asset hs u hu]
      exact .head _
    · exact .tail _ (ih u hu)

/-- Nothing is spent and nothing paid back of an asset that the amounts do not name. -/
theorem asset_ne (h : Funded account strategy amounts spent change) {asset : Hash256}
    (hfresh : asset ∉ assetsOf amounts) :
    (∀ u ∈ spent, u.asset ≠ asset) ∧ ∀ o ∈ change, o.asset ≠ asset :=
  ⟨fun u hu heq => hfresh (heq ▸ h.asset_mem u hu),
    fun _ ho heq => hfresh (heq ▸ h.change_sublist.subset (List.mem_map_of_mem ho))⟩

/-- Of each asset, each of the account's outputs is spent at most once. -/
theorem ofAsset_subperm (h : Funded account strategy amounts spent change)
    (hnodup : (assetsOf amounts).Nodup) (asset : Hash256) :
    (ofAsset asset spent).Subperm (account.unspentOf asset) := by
  induction h with
  | nil => exact List.nil_subperm
  | skip _ _ ih => exact ih (List.nodup_cons.1 hnodup).2
  | @cover a amount rest spent change s os _ hs _ hrest ih =>
    have hsub := Account.select_subperm_unspent hs
    obtain ⟨hfresh, hnodup⟩ := List.nodup_cons.1 hnodup
    rw [Selection.ofAsset_append]
    by_cases hasset : a = asset
    · -- The rest of the run spends nothing of the asset that is covered here.
      rw [← hasset, Selection.ofAsset_eq_nil (hrest.asset_ne hfresh).1, List.append_nil]
      exact List.filter_sublist.subperm.trans hsub
    · rw [Selection.ofAsset_eq_nil (fun u hu => (select_asset hs u hu).trans_ne hasset),
        List.nil_append]
      exact ih hnodup

/-- Each of the account's outputs is spent at most once. -/
theorem subperm (h : Funded account strategy amounts spent change)
    (hnodup : (assetsOf amounts).Nodup) : spent.Subperm account.unspent := by
  refine List.subperm_ext_iff.2 fun u _ => ?_
  have hcount := (h.ofAsset_subperm hnodup u.asset).count_le u
  rwa [Account.unspentOf, Selection.count_ofAsset, Selection.count_ofAsset] at hcount

/-- Something is spent if anything is required, whatever the account's outputs are worth. -/
theorem spent_eq_nil_iff (h : Funded account strategy amounts spent change)
    (hpos : ∀ p ∈ amounts, 0 < p.2.mantissa) : spent = [] ↔ amounts = [] := by
  cases h with
  | nil => exact iff_of_true rfl rfl
  | skip hzero _ =>
    have hamount := hpos _ (.head _)
    exact absurd (eq_of_beq hzero) (Int.ne_of_gt hamount)
  | cover _ hs _ _ =>
    have hne := Selection.selected_ne_nil hs (hpos _ (.head _))
    exact iff_of_false (fun hnil => hne (List.append_eq_nil_iff.1 hnil).1) (List.cons_ne_nil _ _)

/-! ## Funding by counts

From here on the account is solvent and the amounts are positive counts.
-/

section Counts

variable {f : Hash256 → Int}

/-- What covers one amount, with its change. -/
theorem covers_and_change {asset : Hash256} {amount : Decimal} {n : Int} {s : Selection}
    {os : List Output} (ha : account.Solvent) (hn : amount.Counts n) (hpos : 0 < n)
    (hs : account.select asset amount strategy = .ok s)
    (hos : Plan.changeOf account.scriptHash asset s = .ok os) :
    s.Covers (Selection.arrange strategy (account.unspentOf asset)) n ∧
      Output.worth os = Unspent.worth s.selected - n := by
  have hcovers := ha.covers_of_select hn (Int.le_of_lt hpos) hs
  obtain ⟨os', hok, hworth⟩ := exists_changeOf account.scriptHash asset hcovers
    (Int.le_of_lt hpos) (ha.isSpendable_arranged strategy asset)
  rw [hos] at hok
  cases hok
  exact ⟨hcovers, hworth⟩

/-- For each asset of the amounts, what is spent is what is required and the change. -/
theorem worth_ofAsset (h : Funded account strategy amounts spent change) (ha : account.Solvent)
    (hf : CountedBy f amounts) (hnodup : (assetsOf amounts).Nodup) :
    ∀ asset ∈ assetsOf amounts,
      Unspent.worth (ofAsset asset spent) =
        f asset + Output.worth (Output.ofAsset asset change) := by
  induction h with
  | nil => exact fun _ h => nomatch h
  | skip hzero _ _ => cases hzero.symm.trans hf.isZero_eq_false
  | @cover a amount rest spent change s os _ hs hos hrest ih =>
    obtain ⟨-, hworth⟩ := covers_and_change ha hf.counts hf.pos hs hos
    have hos_asset : ∀ o ∈ os, o.asset = a := by
      rcases changeOf_cases hos with rfl | ⟨o, rfl, hasset, -⟩
      · exact fun _ h => nomatch h
      · exact fun o' ho' => List.mem_singleton.1 ho' ▸ hasset
    obtain ⟨hfresh, hnodup⟩ := List.nodup_cons.1 hnodup
    intro asset hasset
    rw [Selection.ofAsset_append, Output.ofAsset_append]
    -- No later amount is of the asset in front, since each asset stands there once.
    by_cases heq : a = asset
    · subst heq
      obtain ⟨hspent, hchange⟩ := hrest.asset_ne hfresh
      rw [Selection.ofAsset_eq_self (select_asset hs), Output.ofAsset_eq_self hos_asset,
        Selection.ofAsset_eq_nil hspent, Output.ofAsset_eq_nil hchange, List.append_nil,
        List.append_nil, hworth]
      omega
    · rw [Selection.ofAsset_eq_nil (fun u hu => (select_asset hs u hu).trans_ne heq),
        Output.ofAsset_eq_nil (fun o ho => (hos_asset o ho).trans_ne heq), List.nil_append,
        List.nil_append]
      exact ih hf.tail hnodup asset
        ((List.mem_cons.1 hasset).resolve_left (Ne.symm heq))

/-- Nothing is paid back exactly if each amount is that of some of the first outputs of its asset,
in the order of the strategy. -/
theorem change_eq_nil_iff (h : Funded account strategy amounts spent change) (ha : account.Solvent)
    (hf : CountedBy f amounts) :
    change = [] ↔ ∀ asset ∈ assetsOf amounts, ∃ k,
      Unspent.worth ((Selection.arrange strategy (account.unspentOf asset)).take k) = f asset := by
  induction h with
  | nil => exact iff_of_true rfl fun _ h => nomatch h
  | skip hzero _ _ => cases hzero.symm.trans hf.isZero_eq_false
  | @cover a amount rest spent change s os _ hs hos _ ih =>
    obtain ⟨hcovers, hworth⟩ := covers_and_change ha hf.counts hf.pos hs hos
    have hnil : os = [] ↔ Unspent.worth s.selected = f a := by
      rw [← Output.worth_eq_zero_iff, hworth]
      omega
    rw [List.append_eq_nil_iff, hnil, ih hf.tail, assetsOf_cons, List.forall_mem_cons,
      hcovers.worth_eq_iff fun u hu => (ha.isSpendable_arranged strategy a u hu).isPositive]

end Counts

end Funded

/-- A solvent account funds amounts that its outputs are worth; no change stands in the way. -/
theorem exists_funded {account : Account} (strategy : Strategy)
    {amounts : List (Hash256 × Decimal)} {f : Hash256 → Int} (ha : account.Solvent)
    (hf : CountedBy f amounts)
    (henough : ∀ a ∈ assetsOf amounts, f a ≤ Unspent.worth (account.unspentOf a)) :
    ∃ spent change, Funded account strategy amounts spent change := by
  induction amounts with
  | nil => exact ⟨[], [], .nil⟩
  | cons p rest ih =>
    obtain ⟨a, amount⟩ := p
    have hnonneg := Int.le_of_lt hf.pos
    obtain ⟨spent, change, hrest⟩ := ih hf.tail fun b hb => henough b (.tail _ hb)
    obtain ⟨s, hs, hcovers⟩ :=
      ha.select_covers strategy hf.counts hnonneg (henough a (.head _))
    obtain ⟨os, hos, -⟩ := exists_changeOf account.scriptHash a hcovers hnonneg
      (ha.isSpendable_arranged strategy a)
    exact ⟨_, _, .cover hf.isZero_eq_false hs hos hrest⟩

/-- A solvent account does not fund amounts beyond what its outputs are worth. -/
theorem Funded.le_worth {account : Account} {strategy : Strategy}
    {amounts : List (Hash256 × Decimal)} {f : Hash256 → Int} {spent : List Unspent}
    {change : List Output} (h : Funded account strategy amounts spent change)
    (ha : account.Solvent) (hf : CountedBy f amounts) :
    ∀ a ∈ assetsOf amounts, f a ≤ Unspent.worth (account.unspentOf a) := by
  induction h with
  | nil => exact fun _ h => nomatch h
  | skip hzero _ _ => cases hzero.symm.trans hf.isZero_eq_false
  | @cover a amount rest spent change s os _ hs _ _ ih =>
    have hle : f a ≤ Unspent.worth (account.unspentOf a) := by
      by_contra hlt
      obtain ⟨_, _, herror, -⟩ := ha.select_insufficient strategy hf.counts (Int.le_of_lt hf.pos)
        (Int.not_le.1 hlt)
      rw [hs] at herror
      cases herror
    rw [assetsOf_cons, List.forall_mem_cons]
    exact ⟨hle, ih hf.tail⟩

end LedgerClient.Call
