import LedgerClient.Proofs.Call.Building
import LedgerClient.Proofs.Ledger.Admission

/-!
# When a call can be built

Within bounds a call is built from a plan exactly if the plan meets what `Plan.Meets` lists
(`exists_build_iff`). None of that is about change: it can always be paid back, since it is less
than one of the outputs spent, and so no payment is ever refused (`build_avoids`). Which attributes
are added is decided by what a plan without payments leads to: it spends nothing exactly if it has
no fees (`inputs_eq_nil_iff`), and pays nothing exactly if its fees are what some of the first
outputs hold (`outputs_eq_nil_iff`).
-/

namespace LedgerClient.Call

open Ledger (Hash160 Hash256 Attribute Usage Input Output Unspent)
open Wallet (Account Selection)
open Wallet.Selection (ofAsset arrange)

/-! ## Attributes -/

/-- A remark is made of up to 65535 bytes. -/
theorem exists_remark_iff {data : Bytes} :
    (∃ a, Attribute.remark data = .ok a) ↔ data.length ≤ Usage.maxCounted := by
  have hadmits : (Usage.remark 0).admits data.length = true ↔ data.length ≤ Usage.maxCounted :=
    decide_eq_true_iff
  rw [Attribute.remark, Attribute.exists_ofData_iff, hadmits]
  exact and_iff_right rfl

/-- Naming the account makes one attribute more where inputs or outputs are missing and it is not
named yet. -/
theorem length_nameAccount (account : Hash160) (inputs : List Input) (outputs : List Output)
    (attributes : List Attribute) :
    (Plan.nameAccount account inputs outputs attributes).length =
      attributes.length +
        if (inputs = [] ∨ outputs = []) ∧ Attribute.script account ∉ attributes then 1 else 0 := by
  rw [nameAccount_eq, List.length_append]
  split <;> rfl

section Attributes

variable {account : Hash160} {remark : Bytes} {inputs : List Input} {outputs : List Output}
  {attributes : List Attribute}

/-- A remark makes one attribute more where there are neither inputs nor outputs. -/
theorem length_of_addRemark {attributes' : List Attribute}
    (h : Plan.addRemark remark inputs outputs attributes = .ok attributes') :
    attributes'.length = attributes.length + if inputs = [] ∧ outputs = [] then 1 else 0 := by
  rw [addRemark_eq_ok_iff] at h
  by_cases hempty : inputs = [] ∧ outputs = []
  · rw [if_pos hempty] at h ⊢
    obtain ⟨a, -, rfl⟩ := h
    rw [List.length_append, List.length_singleton]
  · rw [if_neg hempty] at h ⊢
    rw [h, Nat.add_zero]

/-- A remark that is needed can be added if it is short enough. -/
theorem exists_addRemark_iff :
    (∃ attributes', Plan.addRemark remark inputs outputs attributes = .ok attributes') ↔
      (inputs = [] ∧ outputs = [] → remark.length ≤ Usage.maxCounted) := by
  rw [← exists_remark_iff]
  by_cases hempty : inputs = [] ∧ outputs = []
  · simp only [addRemark_eq_ok_iff, if_pos hempty]
    exact ⟨fun ⟨_, a, ha, _⟩ _ => ⟨a, ha⟩, fun h => (h hempty).imp' _ fun a ha => ⟨a, ha, rfl⟩⟩
  · simp only [addRemark_eq_ok_iff, if_neg hempty]
    exact iff_of_true ⟨_, rfl⟩ fun h => absurd h hempty

/-- The attributes can be completed if the remark, where one is needed, is short enough, and if
there are not too many of them then. -/
theorem exists_attributes_iff :
    (∃ attributes', Plan.addRemark remark inputs outputs
        (Plan.nameAccount account inputs outputs attributes) = .ok attributes' ∧
      attributes'.length ≤ Limits.maxAttributes) ↔
    (inputs = [] ∧ outputs = [] → remark.length ≤ Usage.maxCounted) ∧
      attributes.length +
        (if (inputs = [] ∨ outputs = []) ∧ Attribute.script account ∉ attributes then 1 else 0) +
        (if inputs = [] ∧ outputs = [] then 1 else 0) ≤ Limits.maxAttributes := by
  rw [← length_nameAccount, ← exists_addRemark_iff]
  constructor
  · rintro ⟨attributes', h, hlength⟩
    exact ⟨⟨attributes', h⟩, length_of_addRemark h ▸ hlength⟩
  · rintro ⟨⟨attributes', h⟩, hlength⟩
    exact ⟨attributes', h, length_of_addRemark h ▸ hlength⟩

end Attributes

/-! ## What is left to a plan without payments -/

/-- Nothing is required exactly if nothing is paid and there are no fees. -/
theorem required_eq_zero_iff {outputs : List Output} {n : Int} (hn : 0 ≤ n) :
    (∀ asset, required outputs n asset = 0) ↔ outputs = [] ∧ n = 0 := by
  constructor
  · intro h
    have houtputs : outputs = [] := by
      cases outputs with
      | nil => rfl
      | cons o outputs =>
        have ho := o.amount_pos
        have hpaid := paid_nonneg outputs o.asset
        have hzero := h o.asset
        rw [required, paid_cons, if_pos rfl] at hzero
        split at hzero <;> omega
    subst houtputs
    have hfee := h Hash256.feeAsset
    rw [required, if_pos rfl] at hfee
    exact ⟨rfl, (Int.zero_add n).symm.trans hfee⟩
  · rintro ⟨rfl, rfl⟩ asset
    rw [required, ite_self, Int.add_zero]
    rfl

/-- There are no amounts exactly if nothing is tallied. -/
theorem Tallies.eq_nil_iff {amounts : List (Hash256 × Decimal)} {f : Hash256 → Int}
    (h : Tallies amounts f) : amounts = [] ↔ ∀ asset, f asset = 0 := by
  constructor
  · rintro rfl asset
    exact h.absent asset List.not_mem_nil
  · intro hzero
    cases amounts with
    | nil => rfl
    | cons p rest =>
      have hpos := (h.entries p (.head _)).1
      rw [hzero] at hpos
      exact absurd hpos (Int.lt_irrefl 0)

section Run

variable {account : Account} {strategy : Wallet.Strategy} {amounts : List (Hash256 × Decimal)}
  {outputs : List Output} {n : Int} {spent : List Unspent} {change : List Output}

/-- Nothing is spent exactly without payments and fees. -/
theorem spent_eq_nil_iff (h : Funded account strategy amounts spent change) (hn : 0 ≤ n)
    (ht : Tallies amounts (required outputs n)) : spent = [] ↔ outputs = [] ∧ n = 0 := by
  rw [h.spent_eq_nil_iff ht.entries.mantissa_pos, ht.eq_nil_iff, required_eq_zero_iff hn]

/-- Nothing is paid exactly without payments, if the fees are what some of the first outputs
hold. -/
theorem outputs_append_eq_nil_iff (h : Funded account strategy amounts spent change)
    (ha : account.Solvent) (hn : 0 ≤ n) (ht : Tallies amounts (required outputs n)) :
    outputs ++ change = [] ↔ outputs = [] ∧
      ∃ k, Unspent.worth ((arrange strategy (account.unspentOf Hash256.feeAsset)).take k) = n := by
  rw [List.append_eq_nil_iff]
  refine and_congr_right fun houtputs => ?_
  subst houtputs
  have hrequired : ∀ asset, required [] n asset = if asset = Hash256.feeAsset then n else 0 :=
    fun asset => Int.zero_add _
  rw [h.change_eq_nil_iff ha ht.entries]
  constructor
  · intro hexact
    by_cases hpos : 0 < n
    · have hfee : required [] n Hash256.feeAsset = n := by rw [hrequired, if_pos rfl]
      obtain ⟨k, hk⟩ := hexact Hash256.feeAsset (ht.mem_assetsOf_iff.2 (by rwa [hfee]))
      exact ⟨k, hk.trans hfee⟩
    · exact ⟨0, Int.le_antisymm hn (Int.not_lt.1 hpos)⟩
  · rintro ⟨k, hk⟩ asset hasset
    have hpos := ht.mem_assetsOf_iff.1 hasset
    rw [hrequired] at hpos
    split at hpos
    · next heq => exact ⟨k, by rw [hrequired, if_pos heq, ← hk, heq]⟩
    · exact absurd hpos (Int.lt_irrefl 0)

end Run

/-! ## What a plan has to meet -/

namespace Plan

/-- The plan leads to no inputs: there is nothing to pay and no fee. -/
def SpendsNothing (p : Plan) (networkFee systemFee : Fixed8) : Prop :=
  p.outputs = [] ∧ networkFee.toDecimal.units + systemFee.toDecimal.units = 0

/-- The plan leads to no outputs: there is nothing to pay, and the fees leave no change, because
they are what some of the first outputs of the fee asset hold, in the order of the strategy. -/
def PaysNothing (p : Plan) (account : Account) (networkFee systemFee : Fixed8) : Prop :=
  p.outputs = [] ∧ ∃ k,
    Unspent.total ((arrange p.strategy (account.unspentOf Hash256.feeAsset)).take k) =
      networkFee.toDecimal.units + systemFee.toDecimal.units

open Classical in
/-- How many attributes are added to those of the plan: one that names the account unless there are
inputs and outputs or it is named already, and a remark if there are neither. -/
noncomputable def additions (p : Plan) (account : Account) (networkFee systemFee : Fixed8) : Nat :=
  (if (p.SpendsNothing networkFee systemFee ∨ p.PaysNothing account networkFee systemFee) ∧
      Attribute.script account.scriptHash ∉ p.attributes then 1 else 0) +
    if p.SpendsNothing networkFee systemFee ∧ p.PaysNothing account networkFee systemFee then 1
    else 0

/-- What is added, by the inputs and outputs that the plan leads to. -/
theorem additions_eq {p : Plan} {account : Account} {networkFee systemFee : Fixed8}
    {inputs : List Input} {outputs : List Output}
    (hinputs : inputs = [] ↔ p.SpendsNothing networkFee systemFee)
    (houtputs : outputs = [] ↔ p.PaysNothing account networkFee systemFee) :
    p.additions account networkFee systemFee =
      (if (inputs = [] ∨ outputs = []) ∧ Attribute.script account.scriptHash ∉ p.attributes then 1
        else 0) + if inputs = [] ∧ outputs = [] then 1 else 0 := by
  classical
  rw [additions]
  congr 1
  · exact if_congr (and_congr_left fun _ => (or_congr hinputs houtputs).symm) rfl rfl
  · exact if_congr (and_congr hinputs houtputs).symm rfl rfl

/-- At most two attributes are added. -/
theorem additions_le (p : Plan) (account : Account) (networkFee systemFee : Fixed8) :
    p.additions account networkFee systemFee ≤ 2 := by
  rw [additions]
  split <;> split <;> decide

/-- What a plan has to meet for a call to be built from it. -/
structure Meets (p : Plan) (account : Account) (networkFee systemFee : Fixed8) : Prop where
  contract_isSome : p.contract.isSome
  account_eq : p.account = some account
  interval_ne : p.policy.interval ≠ 0
  pushable : ∀ q ∈ p.parameters, q.Pushable
  networkFee_is : FeeIs p.networkFee networkFee
  systemFee_is : FeeIs p.systemFee systemFee
  /-- The account's outputs of an asset hold what is to be paid of it, and the fees if it is the fee
  asset. -/
  funds : ∀ asset, Output.total (Output.ofAsset asset p.outputs) +
      (if asset = Hash256.feeAsset then networkFee.toDecimal.units + systemFee.toDecimal.units
        else 0) ≤ Unspent.total (account.unspentOf asset)
  remark_length :
    p.SpendsNothing networkFee systemFee ∧ p.PaysNothing account networkFee systemFee →
      p.remark.length ≤ Usage.maxCounted
  length_attributes :
    p.attributes.length + p.additions account networkFee systemFee ≤ Limits.maxAttributes

end Plan

section Meets

variable {p : Plan} {account : Account} {networkFee systemFee : Fixed8}

/-- Both fees together, in the units of decimals and in hundred-millionths. -/
theorem units_fees (networkFee systemFee : Fixed8) :
    networkFee.toDecimal.units + systemFee.toDecimal.units =
      (networkFee.raw + systemFee.raw) * 10 ^ (Decimal.maxScale - Fixed8.decimals) := by
  have hnetwork : networkFee.toDecimal.units = _ := networkFee.counts_toDecimal
  have hsystem : systemFee.toDecimal.units = _ := systemFee.counts_toDecimal
  rw [hnetwork, hsystem, Int.add_mul]

/-- The funds suffice exactly if the account's outputs are worth what is required. -/
theorem funds_iff (ha : account.Solvent) (outputs : List Output) (asset : Hash256) :
    Output.total (Output.ofAsset asset outputs) +
        (if asset = Hash256.feeAsset then networkFee.toDecimal.units + systemFee.toDecimal.units
          else 0) ≤ Unspent.total (account.unspentOf asset) ↔
      required outputs (networkFee.raw + systemFee.raw) asset ≤
        Unspent.worth (account.unspentOf asset) := by
  have hscale : (0 : Int) < 10 ^ (Decimal.maxScale - Fixed8.decimals) := by decide
  rw [Output.total_eq, Unspent.total_eq fun u hu => ha.isPositive hu, units_fees, required, paid]
  split
  · rw [← Int.add_mul, Int.mul_le_mul_right hscale]
  · rw [Int.add_zero, Int.add_zero, Int.mul_le_mul_right hscale]

/-- A plan spends nothing exactly if it has neither payments nor fees, counted in
hundred-millionths. -/
theorem spendsNothing_iff :
    p.SpendsNothing networkFee systemFee ↔ p.outputs = [] ∧ networkFee.raw + systemFee.raw = 0 := by
  rw [Plan.SpendsNothing, units_fees, Int.mul_eq_zero]
  exact and_congr_right fun _ => or_iff_left (by decide)

/-- A plan without payments pays nothing back exactly if its fees are worth some of the first
outputs of the fee asset, counted in hundred-millionths. -/
theorem paysNothing_iff (ha : account.Solvent) :
    p.PaysNothing account networkFee systemFee ↔ p.outputs = [] ∧ ∃ k,
      Unspent.worth ((arrange p.strategy (account.unspentOf Hash256.feeAsset)).take k) =
        networkFee.raw + systemFee.raw := by
  refine and_congr_right fun _ => exists_congr fun k => ?_
  rw [units_fees, Unspent.total_eq fun u hu =>
    (ha.isSpendable_arranged p.strategy _ u (List.mem_of_mem_take hu)).isPositive]
  exact ⟨fun h => Int.eq_of_mul_eq_mul_right (by decide) h, fun h => h ▸ rfl⟩

section Run

variable {amounts : List (Hash256 × Decimal)} {spent : List Unspent} {change : List Output}

/-- Along a funded run there are no inputs exactly if the plan spends nothing. -/
theorem inputs_eq_nil_iff (h : Funded account p.strategy amounts spent change)
    (hn : 0 ≤ networkFee.raw + systemFee.raw)
    (ht : Tallies amounts (required p.outputs (networkFee.raw + systemFee.raw))) :
    spent.map Unspent.toInput = [] ↔ p.SpendsNothing networkFee systemFee := by
  rw [List.map_eq_nil_iff, spent_eq_nil_iff h hn ht, spendsNothing_iff]

/-- Along a funded run there are no outputs exactly if the plan pays nothing. -/
theorem outputs_eq_nil_iff (h : Funded account p.strategy amounts spent change)
    (ha : account.Solvent) (hn : 0 ≤ networkFee.raw + systemFee.raw)
    (ht : Tallies amounts (required p.outputs (networkFee.raw + systemFee.raw))) :
    p.outputs ++ change = [] ↔ p.PaysNothing account networkFee systemFee := by
  rw [outputs_append_eq_nil_iff h ha hn ht, paysNothing_iff ha]

/-- Along a funded run, the attributes can be completed if the plan meets what concerns them. -/
theorem exists_attributes_iff_meets (h : Funded account p.strategy amounts spent change)
    (ha : account.Solvent) (hn : 0 ≤ networkFee.raw + systemFee.raw)
    (ht : Tallies amounts (required p.outputs (networkFee.raw + systemFee.raw))) :
    (∃ attributes, Plan.addRemark p.remark (spent.map Unspent.toInput) (p.outputs ++ change)
        (Plan.nameAccount account.scriptHash (spent.map Unspent.toInput) (p.outputs ++ change)
          p.attributes) = .ok attributes ∧ attributes.length ≤ Limits.maxAttributes) ↔
      (p.SpendsNothing networkFee systemFee ∧ p.PaysNothing account networkFee systemFee →
        p.remark.length ≤ Usage.maxCounted) ∧
      p.attributes.length + p.additions account networkFee systemFee ≤ Limits.maxAttributes := by
  have hinputs := inputs_eq_nil_iff h hn ht
  have houtputs := outputs_eq_nil_iff h ha hn ht
  rw [exists_attributes_iff, Plan.additions_eq hinputs houtputs, ← Nat.add_assoc]
  exact and_congr_left fun _ => imp_congr_left (and_congr hinputs houtputs)

end Run

end Meets

/-- The way to a call gives what its plan has to meet. -/
theorem Course.meets {p : Plan} (r : Course p) (hp : p.Bounded) :
    p.Meets r.account r.networkFee r.systemFee := by
  have ha := r.solvent hp
  have ht := r.tallies hp
  obtain ⟨hremark, hlength⟩ := (exists_attributes_iff_meets r.funded ha r.feeCount_nonneg ht).1
    ⟨_, r.attributes_eq, r.length_attributes⟩
  refine ⟨r.contract_eq ▸ rfl, r.account_eq, r.interval_ne, ?_, r.networkFee_is, r.systemFee_is, ?_,
    hremark, hlength⟩
  · exact Script.exists_appCall_iff.1 ⟨_, r.script_eq⟩
  · intro asset
    rw [funds_iff ha]
    by_cases hasset : asset ∈ assetsOf r.amounts
    · exact r.funded.le_worth ha ht.entries asset hasset
    · exact (ht.absent asset hasset).trans_le (Unspent.worth_nonneg fun u hu => ha.isPositive hu)

/-- What the way to a call leaves without inputs, without outputs, and with more attributes. -/
theorem Course.leaves {p : Plan} (r : Course p) (hp : p.Bounded) :
    (r.transaction.inputs = [] ↔ p.SpendsNothing r.networkFee r.systemFee) ∧
      (r.transaction.outputs = [] ↔ p.PaysNothing r.account r.networkFee r.systemFee) ∧
      r.transaction.attributes.length =
        p.attributes.length + p.additions r.account r.networkFee r.systemFee := by
  have ha := r.solvent hp
  have ht := r.tallies hp
  have hinputs := inputs_eq_nil_iff r.funded r.feeCount_nonneg ht
  have houtputs := outputs_eq_nil_iff r.funded ha r.feeCount_nonneg ht
  refine ⟨hinputs, houtputs, (length_of_addRemark r.attributes_eq).trans ?_⟩
  rw [length_nameAccount, Plan.additions_eq hinputs houtputs, Nat.add_assoc]

/-- What a plan has to meet gives a way to its call. -/
theorem Plan.Meets.exists_course {p : Plan} {account : Account} {networkFee systemFee : Fixed8}
    (h : p.Meets account networkFee systemFee) (hp : p.Bounded) : Nonempty (Course p) := by
  have ha := hp.solvent _ h.account_eq
  have hnetwork := h.networkFee_is.nonneg
  have hsystem := h.systemFee_is.nonneg
  obtain ⟨contract, hcontract⟩ := Option.isSome_iff_exists.1 h.contract_isSome
  obtain ⟨script, hscript⟩ := Script.exists_appCall_iff.2 h.pushable
  obtain ⟨fees, amounts, hfees, hamounts, ht⟩ := exists_tallies hp.few hnetwork hsystem
  obtain ⟨spent, change, hfunded⟩ := exists_funded p.strategy ha ht.entries
    fun asset _ => (funds_iff ha p.outputs asset).1 (h.funds asset)
  obtain ⟨attributes, hattributes, hlength⟩ := (exists_attributes_iff_meets hfunded ha
    (Int.add_nonneg hnetwork hsystem) ht).2 ⟨h.remark_length, h.length_attributes⟩
  exact ⟨⟨contract, account, script, networkFee, systemFee, fees, amounts, spent, change,
    attributes, hcontract, h.account_eq, h.interval_ne, hscript, h.networkFee_is, h.systemFee_is,
    hfees, hamounts, hfunded, hattributes, hlength⟩⟩

/-! ## Change is always paid back -/

/-- The error says that no payment can be made of an amount. -/
def Error.RefusesPayment : Error → Prop
  | .ledger (.purposeRange _ _) => True
  | .ledger (.notPositive _ _) => True
  | _ => False

/-- A fee that cannot be read is not reported as a payment that cannot be made. -/
theorem parseFee_avoids (which : Fee) (text : Option String) :
    (Plan.parseFee which text).Avoids Error.RefusesPayment := by
  cases text with
  | none => exact Except.avoids_ok
  | some s =>
    rw [Plan.parseFee]
    split
    · next e _ => cases e <;> exact Except.avoids_error id
    · split
      · exact Except.avoids_error id
      · exact Except.avoids_ok

/-- Funding positive amounts from a solvent account fails only for want of funds: whatever is
selected, its change is a payment. -/
theorem fund_avoids {account : Account} {amounts : List (Hash256 × Decimal)} {f : Hash256 → Int}
    (ha : account.Solvent) (hf : CountedBy f amounts) (strategy : Wallet.Strategy) :
    (Plan.fund account strategy amounts).Avoids Error.RefusesPayment := by
  induction amounts with
  | nil => exact Except.avoids_ok
  | cons p rest ih =>
    obtain ⟨a, amount⟩ := p
    have hnonneg := Int.le_of_lt hf.pos
    replace ih := ih hf.tail
    rw [Plan.fund]
    split
    · exact ih
    · refine Except.Avoids.bind (Except.Avoids.mapError fun _ _ => id) fun s hs => ?_
      have hcovers := ha.covers_of_select hf.counts hnonneg (Except.mapError_eq_ok_iff.1 hs)
      obtain ⟨os, hos, -⟩ := exists_changeOf account.scriptHash a hcovers hnonneg
        (ha.isSpendable_arranged strategy a)
      rw [hos]
      exact Except.Avoids.bind Except.avoids_ok fun _ _ => ih.bind fun _ _ => Except.avoids_ok

/-- Nor is a remark that is too long. -/
theorem addRemark_avoids (remark : Bytes) (inputs : List Input) (outputs : List Output)
    (attributes : List Attribute) :
    (Plan.addRemark remark inputs outputs attributes).Avoids Error.RefusesPayment := by
  rw [Plan.addRemark]
  split
  · split
    · exact Except.avoids_ok
    · next e he =>
      refine Except.avoids_error fun hrefuses => ?_
      have hslot : (Usage.remark 0).slotExists = true := rfl
      rw [Attribute.remark, Attribute.ofData, dif_pos hslot] at he
      split at he <;> cases he
      exact hrefuses
  · exact Except.avoids_ok

/-- Nor are too many attributes, or a missing script. -/
theorem assemble_avoids (script : Bytes) (systemFee : Fixed8) (attributes : List Attribute)
    (inputs : List Input) (outputs : List Output) :
    (Plan.assemble script systemFee attributes inputs outputs).Avoids
      fun e => Error.RefusesPayment (.ledger e) := by
  rw [Plan.assemble, Ledger.Invocation.withAttributes, Ledger.addAttributes]
  refine Except.Avoids.bind ?_ fun t _ => ?_
  · split
    · exact Except.avoids_error id
    · exact Except.avoids_ok
  · rw [Ledger.Invocation.finish]
    split
    · exact Except.avoids_error id
    · exact Except.avoids_ok

/-- Building a plan within bounds refuses no payment. -/
theorem build_avoids {p : Plan} (hp : p.Bounded) : p.build.Avoids Error.RefusesPayment := by
  rw [Plan.build]
  split
  swap
  · exact Except.avoids_error id
  split
  swap
  · exact Except.avoids_error id
  next account haccount =>
  split
  · exact Except.avoids_error id
  refine Except.Avoids.bind (Except.Avoids.mapError fun _ _ => id) fun script _ => ?_
  refine Except.Avoids.bind (parseFee_avoids _ _) fun networkFee hnetwork => ?_
  refine Except.Avoids.bind (parseFee_avoids _ _) fun systemFee hsystem => ?_
  obtain ⟨fees, amounts, hfees, hamounts, ht⟩ := exists_tallies hp.few
    (parseFee_eq_ok_iff.1 hnetwork).nonneg (parseFee_eq_ok_iff.1 hsystem).nonneg
  simp only [hfees, hamounts]
  have hfund := fund_avoids (hp.solvent _ haccount) ht.entries p.strategy
  refine hfund.bind fun funds _ => ?_
  refine Except.Avoids.bind (addRemark_avoids _ _ _ _) fun attributes _ => ?_
  exact (assemble_avoids _ _ _ _ _).mapError.bind fun _ _ => Except.avoids_ok

/-- A call is built from a plan within bounds exactly if the plan meets what `Plan.Meets` lists.
What `Plan.Meets` says about inputs, outputs and attributes is said of those of the call. That
change could not be paid back is never the reason why no call is built. -/
theorem exists_build_iff {p : Plan} (hp : p.Bounded) :
    ((∃ c, p.build = .ok c) ↔
        ∃ account networkFee systemFee, p.Meets account networkFee systemFee) ∧
      (∀ c account networkFee systemFee, p.build = .ok c → p.Meets account networkFee systemFee →
        (c.transaction.inputs = [] ↔ p.SpendsNothing networkFee systemFee) ∧
        (c.transaction.outputs = [] ↔ p.PaysNothing account networkFee systemFee) ∧
        c.transaction.attributes.length =
          p.attributes.length + p.additions account networkFee systemFee) ∧
      ∀ e, p.build = .error e → ¬ e.RefusesPayment := by
  refine ⟨⟨?_, ?_⟩, ?_, build_avoids hp⟩
  · rintro ⟨c, hc⟩
    obtain ⟨r, -⟩ := build_eq_ok_iff.1 hc
    exact ⟨_, _, _, r.meets hp⟩
  · rintro ⟨account, networkFee, systemFee, hmeets⟩
    obtain ⟨r⟩ := hmeets.exists_course hp
    exact ⟨_, build_eq_ok_iff.2 ⟨r, rfl⟩⟩
  · intro c account networkFee systemFee hc hmeets
    obtain ⟨r, rfl⟩ := build_eq_ok_iff.1 hc
    cases r.account_eq.symm.trans hmeets.account_eq
    cases r.networkFee_is.unique hmeets.networkFee_is
    cases r.systemFee_is.unique hmeets.systemFee_is
    exact r.leaves hp

/-- The sample's plan with a fee of four units, which leaves too little for its payment. -/
def dearPlan : Plan := { samplePlan with networkFee := some "4" }

/-- The call of the sample is built and its plan meets what it has to; since it spends and pays, no
attribute is added. With the larger fee nothing meets what it has to, and no call is built. -/
theorem exists_build_iff_sample : samplePlan.Bounded ∧
    samplePlan.build = .ok sampleCourse.prepared ∧
    samplePlan.Meets sampleAccount (.ofWord 100000000) .zero ∧
    ¬ samplePlan.SpendsNothing (.ofWord 100000000) .zero ∧
    samplePlan.additions sampleAccount (.ofWord 100000000) .zero = 0 ∧
    dearPlan.Bounded ∧ ¬ ∃ c, dearPlan.build = .ok c := by
  have hbuild : samplePlan.build = .ok sampleCourse.prepared :=
    build_eq_ok_iff.2 ⟨sampleCourse, rfl⟩
  have hmeets : samplePlan.Meets sampleAccount (.ofWord 100000000) .zero :=
    sampleCourse.meets samplePlan_bounded
  obtain ⟨hinputs, -, hattributes⟩ :=
    (exists_build_iff samplePlan_bounded).2.1 _ _ _ _ hbuild hmeets
  have hdear : dearPlan.Bounded := ⟨samplePlan_bounded.solvent, samplePlan_bounded.few⟩
  refine ⟨samplePlan_bounded, hbuild, hmeets, fun h => ?_, ?_, hdear, ?_⟩
  · exact List.cons_ne_nil _ _ (hinputs.2 h)
  · exact (Nat.zero_add _).symm.trans hattributes.symm
  · rw [(exists_build_iff hdear).1]
    rintro ⟨account, networkFee, systemFee, h⟩
    obtain rfl : sampleAccount = account := Option.some.inj h.account_eq
    obtain rfl : networkFee = .ofWord 400000000 := h.networkFee_is.unique ⟨rfl, by decide⟩
    obtain rfl : systemFee = .zero := h.systemFee_is
    exact absurd (h.funds Hash256.feeAsset) (by decide +kernel)

end LedgerClient.Call
