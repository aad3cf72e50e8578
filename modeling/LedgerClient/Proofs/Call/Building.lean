import LedgerClient.Proofs.Call.Funding
import LedgerClient.Proofs.Ledger.Draft
import LedgerClient.Proofs.Script.Pushable

/-!
# Building a plan

A `Course` of a plan is all that happens on the way to the call that is built from it, and calls are
built along courses (`build_eq_ok_iff`). Within the bounds of `Plan.Bounded` the amounts of a course
tally what is required (`Course.tallies`), so that the theorems on funding apply to it.
-/

namespace LedgerClient.Call

open Ledger (Hash160 Hash256 Attribute Input Output Unspent Invocation)
open Wallet (Account)

/-! ## Fees -/

/-- A fee text, if there is one, spells a fee that is not negative. -/
def FeeIs (text : Option String) (fee : Fixed8) : Prop :=
  match text with
  | none => fee = .zero
  | some s => Fixed8.parse s = .ok fee ∧ 0 ≤ fee.raw

/-- A fee is read exactly if it is what its text says: an amount that is not negative, and zero
without a text. -/
theorem parseFee_eq_ok_iff {which : Fee} {text : Option String} {fee : Fixed8} :
    Plan.parseFee which text = .ok fee ↔ FeeIs text fee := by
  cases text with
  | none => exact ⟨fun h => (Except.ok.inj h).symm, fun h => congrArg _ (Eq.symm h)⟩
  | some s =>
    rw [Plan.parseFee, FeeIs]
    cases Fixed8.parse s with
    | error e =>
      constructor
      · rintro ⟨⟩
      · rintro ⟨⟨⟩, _⟩
    | ok amount =>
      by_cases hneg : amount.raw < 0
      · simp only [if_pos hneg]
        constructor
        · rintro ⟨⟩
        · rintro ⟨⟨⟩, hnonneg⟩
          omega
      · simp only [if_neg hneg]
        constructor
        · rintro ⟨⟩
          exact ⟨rfl, Int.not_lt.1 hneg⟩
        · rintro ⟨⟨⟩, _⟩
          rfl

/-- A fee is never negative. -/
theorem FeeIs.nonneg {text : Option String} {fee : Fixed8} (h : FeeIs text fee) : 0 ≤ fee.raw := by
  cases text with
  | none => exact Eq.symm h ▸ Int.le_refl 0
  | some s => exact h.2

/-- A text says one fee only. -/
theorem FeeIs.unique {text : Option String} {fee fee' : Fixed8} (h : FeeIs text fee)
    (h' : FeeIs text fee') : fee = fee' := by
  cases text with
  | none => exact Eq.trans h (Eq.symm h')
  | some s => exact Except.ok.inj (h.1.symm.trans h'.1)

/-! ## Attributes and transaction -/

/-- The attribute that names the account is added where inputs or outputs are missing, unless it is
there already. -/
theorem nameAccount_eq (account : Hash160) (inputs : List Input) (outputs : List Output)
    (attributes : List Attribute) :
    Plan.nameAccount account inputs outputs attributes = attributes ++
      if (inputs = [] ∨ outputs = []) ∧ Attribute.script account ∉ attributes then
        [Attribute.script account] else [] := by
  have hempty : (inputs.isEmpty || outputs.isEmpty) = true ↔ inputs = [] ∨ outputs = [] := by
    rw [Bool.or_eq_true, List.isEmpty_iff, List.isEmpty_iff]
  rw [Plan.nameAccount]
  by_cases hnil : inputs = [] ∨ outputs = []
  · rw [if_pos (hempty.2 hnil)]
    by_cases hmem : Attribute.script account ∈ attributes
    · rw [if_pos (List.contains_iff_mem.2 hmem), if_neg fun h => h.2 hmem, List.append_nil]
    · rw [if_neg fun h => hmem (List.contains_iff_mem.1 h), if_pos ⟨hnil, hmem⟩]
  · rw [if_neg fun h => hnil (hempty.1 h), if_neg fun h => hnil h.1, List.append_nil]

/-- The account is named where inputs or outputs are missing. -/
theorem script_mem_nameAccount {account : Hash160} {inputs : List Input} {outputs : List Output}
    (attributes : List Attribute) (h : inputs = [] ∨ outputs = []) :
    Attribute.script account ∈ Plan.nameAccount account inputs outputs attributes := by
  rw [nameAccount_eq, List.mem_append]
  by_cases hmem : Attribute.script account ∈ attributes
  · exact .inl hmem
  · rw [if_pos ⟨h, hmem⟩]
    exact .inr (List.mem_singleton_self _)

/-- A remark is added where there are neither inputs nor outputs, and has to be short enough
there. -/
theorem addRemark_eq_ok_iff {remark : Bytes} {inputs : List Input} {outputs : List Output}
    {attributes attributes' : List Attribute} :
    Plan.addRemark remark inputs outputs attributes = .ok attributes' ↔
      if inputs = [] ∧ outputs = [] then
        ∃ a, Attribute.remark remark = .ok a ∧ attributes' = attributes ++ [a]
      else attributes' = attributes := by
  have hiff : (inputs.isEmpty && outputs.isEmpty) = true ↔ inputs = [] ∧ outputs = [] := by
    rw [Bool.and_eq_true, List.isEmpty_iff, List.isEmpty_iff]
  rw [Plan.addRemark]
  by_cases hempty : inputs = [] ∧ outputs = []
  · rw [if_pos (hiff.2 hempty), if_pos hempty]
    cases Attribute.remark remark with
    | error e => exact iff_of_false nofun fun ⟨_, h, _⟩ => nomatch h
    | ok a =>
      constructor
      · exact fun h => ⟨a, rfl, (Except.ok.inj h).symm⟩
      · rintro ⟨_, ⟨⟩, rfl⟩
        rfl
  · rw [if_neg fun h => hempty (hiff.1 h), if_neg hempty]
    exact ⟨fun h => (Except.ok.inj h).symm, fun h => congrArg _ h.symm⟩

/-- The transaction with a script and the given parts is assembled if the attributes are not too
many. -/
theorem assemble_eq_ok_iff {script : Bytes} {systemFee : Fixed8} {attributes : List Attribute}
    {inputs : List Input} {outputs : List Output} {t : Invocation} (hscript : script ≠ []) :
    Plan.assemble script systemFee attributes inputs outputs = .ok t ↔
      attributes.length ≤ Limits.maxAttributes ∧
        { Invocation.new with
          script := script, gas := systemFee, attributes := attributes, inputs := inputs,
          outputs := outputs } = t := by
  rw [Plan.assemble, Except.bind_eq_ok_iff]
  constructor
  · rintro ⟨t', hattributes, hfinish⟩
    obtain ⟨hlength, rfl⟩ := Invocation.withAttributes_eq_ok_iff.1 hattributes
    exact ⟨(Nat.zero_add _).symm.trans_le hlength, (Invocation.finish_eq_ok_iff.1 hfinish).2⟩
  · rintro ⟨hlength, rfl⟩
    refine ⟨_, Invocation.withAttributes_eq_ok_iff.2 ⟨(Nat.zero_add _).trans_le hlength, rfl⟩, ?_⟩
    exact Invocation.finish_eq_ok_iff.2 ⟨hscript, rfl⟩

/-! ## Courses -/

/-- What happens on the way from a plan to its call. -/
structure Course (p : Plan) where
  contract : Hash160
  account : Account
  script : Bytes
  networkFee : Fixed8
  systemFee : Fixed8
  fees : Decimal
  amounts : List (Hash256 × Decimal)
  spent : List Unspent
  change : List Output
  attributes : List Attribute
  contract_eq : p.contract = some contract
  account_eq : p.account = some account
  interval_ne : p.policy.interval ≠ 0
  script_eq : (Script.appCall contract p.parameters).toExcept = .ok script
  networkFee_is : FeeIs p.networkFee networkFee
  systemFee_is : FeeIs p.systemFee systemFee
  fees_eq : networkFee.toDecimal.add? systemFee.toDecimal = some fees
  amounts_eq : Plan.requiredAmounts p.outputs fees = some amounts
  funded : Funded account p.strategy amounts spent change
  attributes_eq : Plan.addRemark p.remark (spent.map Unspent.toInput) (p.outputs ++ change)
    (Plan.nameAccount account.scriptHash (spent.map Unspent.toInput) (p.outputs ++ change)
      p.attributes) = .ok attributes
  length_attributes : attributes.length ≤ Limits.maxAttributes

namespace Course

variable {p : Plan}

/-- The transaction at the end of a course. -/
def transaction (r : Course p) : Invocation :=
  { Invocation.new with
    script := r.script
    gas := r.systemFee
    attributes := r.attributes
    inputs := r.spent.map Unspent.toInput
    outputs := p.outputs ++ r.change }

/-- The call at the end of a course. -/
def prepared (r : Course p) : Prepared :=
  ⟨r.account, r.transaction, r.transaction.id, false, p.policy⟩

end Course

/-- Calls are built along courses. -/
theorem build_eq_ok_iff {p : Plan} {c : Prepared} :
    p.build = .ok c ↔ ∃ r : Course p, r.prepared = c := by
  constructor
  · intro h
    rw [Plan.build] at h
    -- Each check and each step leaves one field of the course behind.
    cases hcontract : p.contract with
    | none => rw [hcontract] at h; cases h
    | some contract =>
    cases haccount : p.account with
    | none => rw [hcontract, haccount] at h; cases h
    | some account =>
    rw [hcontract, haccount] at h
    by_cases hinterval : p.policy.interval = 0
    · simp only [if_pos hinterval] at h
      cases h
    simp only [if_neg hinterval] at h
    obtain ⟨script, hscript, h⟩ := Except.bind_eq_ok_iff.1 h
    obtain ⟨networkFee, hnetwork, h⟩ := Except.bind_eq_ok_iff.1 h
    obtain ⟨systemFee, hsystem, h⟩ := Except.bind_eq_ok_iff.1 h
    cases hfees : networkFee.toDecimal.add? systemFee.toDecimal with
    | none => simp only [hfees] at h; cases h
    | some fees =>
    simp only [hfees] at h
    cases hamounts : Plan.requiredAmounts p.outputs fees with
    | none => simp only [hamounts] at h; cases h
    | some amounts =>
    simp only [hamounts] at h
    obtain ⟨⟨inputs, change⟩, hfund, h⟩ := Except.bind_eq_ok_iff.1 h
    obtain ⟨attributes, hattributes, h⟩ := Except.bind_eq_ok_iff.1 h
    obtain ⟨t, ht, h⟩ := Except.bind_eq_ok_iff.1 h
    obtain ⟨spent, hfunded, rfl⟩ := fund_eq_ok_iff.1 hfund
    replace hscript := Except.mapError_eq_ok_iff.1 hscript
    obtain ⟨hlength, rfl⟩ := (assemble_eq_ok_iff (Script.appCall_ne_nil hscript)).1
      (Except.mapError_eq_ok_iff.1 ht)
    exact ⟨⟨contract, account, script, networkFee, systemFee, fees, amounts, spent, change,
      attributes, hcontract, haccount, hinterval, hscript, parseFee_eq_ok_iff.1 hnetwork,
      parseFee_eq_ok_iff.1 hsystem, hfees, hamounts, hfunded, hattributes, hlength⟩,
      Except.ok.inj h⟩
  · rintro ⟨r, rfl⟩
    -- The fields of a course are what lets each check and each step pass.
    rw [Plan.build, r.contract_eq, r.account_eq]
    simp only [if_neg r.interval_ne]
    refine Except.bind_eq_ok_iff.2 ⟨_, Except.mapError_eq_ok_iff.2 r.script_eq, ?_⟩
    refine Except.bind_eq_ok_iff.2 ⟨_, parseFee_eq_ok_iff.2 r.networkFee_is, ?_⟩
    refine Except.bind_eq_ok_iff.2 ⟨_, parseFee_eq_ok_iff.2 r.systemFee_is, ?_⟩
    simp only [r.fees_eq, r.amounts_eq]
    refine Except.bind_eq_ok_iff.2 ⟨⟨r.spent.map Unspent.toInput, r.change⟩,
      fund_eq_ok_iff.2 ⟨_, r.funded, rfl⟩, ?_⟩
    refine Except.bind_eq_ok_iff.2 ⟨_, r.attributes_eq, ?_⟩
    refine Except.bind_eq_ok_iff.2 ⟨_, Except.mapError_eq_ok_iff.2 ?_, rfl⟩
    exact (assemble_eq_ok_iff (Script.appCall_ne_nil r.script_eq)).2 ⟨r.length_attributes, rfl⟩

/-! ## Bounds -/

/-- The account of a plan is solvent, and the plan makes fewer than 2³² payments. -/
structure Plan.Bounded (p : Plan) : Prop where
  solvent : ∀ a, p.account = some a → a.Solvent
  few : p.outputs.length < 2 ^ 32

/-- What so few payments and two fees require fits a decimal. -/
theorem required_le {outputs : List Output} (h : outputs.length < 2 ^ 32)
    (networkFee systemFee : Fixed8) (asset : Hash256) :
    required outputs (networkFee.raw + systemFee.raw) asset ≤ Decimal.maxMantissa := by
  have hpaid := paid_le_length outputs asset
  have hnetwork := networkFee.lt_max
  have hsystem := systemFee.lt_max
  simp only [Decimal.maxMantissa]
  rw [required]
  split <;> omega

/-- Two fees can always be added up. -/
theorem exists_fees (networkFee systemFee : Fixed8) :
    ∃ fees, networkFee.toDecimal.add? systemFee.toDecimal = some fees ∧
      fees.Counts (networkFee.raw + systemFee.raw) := by
  refine networkFee.counts_toDecimal.add? systemFee.counts_toDecimal ?_
  have := networkFee.min_le
  have := networkFee.lt_max
  have := systemFee.min_le
  have := systemFee.lt_max
  simp only [Decimal.maxMantissa]
  omega

/-- The amounts of so few payments and two fees can be added up, and tally what is required. -/
theorem exists_tallies {outputs : List Output} {networkFee systemFee : Fixed8}
    (hfew : outputs.length < 2 ^ 32) (hnetwork : 0 ≤ networkFee.raw) (hsystem : 0 ≤ systemFee.raw) :
    ∃ fees amounts, networkFee.toDecimal.add? systemFee.toDecimal = some fees ∧
      Plan.requiredAmounts outputs fees = some amounts ∧
      Tallies amounts (required outputs (networkFee.raw + systemFee.raw)) := by
  obtain ⟨fees, hfees, hcounts⟩ := exists_fees networkFee systemFee
  obtain ⟨amounts, hamounts, htallies⟩ :=
    Plan.requiredAmounts_tallies hcounts (Int.add_nonneg hnetwork hsystem)
      (required_le hfew networkFee systemFee)
  exact ⟨fees, amounts, hfees, hamounts, htallies⟩

namespace Course

variable {p : Plan}

/-- The two fees together, in hundred-millionths. -/
def feeCount (r : Course p) : Int := r.networkFee.raw + r.systemFee.raw

/-- The fees of a course are never negative. -/
theorem feeCount_nonneg (r : Course p) : 0 ≤ r.feeCount :=
  Int.add_nonneg r.networkFee_is.nonneg r.systemFee_is.nonneg

/-- The sum of the fees along a course is exact. -/
theorem counts_fees (r : Course p) : r.fees.Counts r.feeCount := by
  obtain ⟨fees, hfees, hcounts⟩ := exists_fees r.networkFee r.systemFee
  cases hfees.symm.trans r.fees_eq
  exact hcounts

/-- The account of a course is solvent if its plan is bounded. -/
theorem solvent (r : Course p) (hp : p.Bounded) : r.account.Solvent := hp.solvent _ r.account_eq

/-- The amounts of a course tally what its plan requires. -/
theorem tallies (r : Course p) (hp : p.Bounded) :
    Tallies r.amounts (required p.outputs r.feeCount) := by
  obtain ⟨fees, amounts, hfees, hamounts, htallies⟩ :=
    exists_tallies hp.few r.networkFee_is.nonneg r.systemFee_is.nonneg
  cases hfees.symm.trans r.fees_eq
  cases hamounts.symm.trans r.amounts_eq
  exact htallies

/-- Each of the account's outputs is spent at most once. -/
theorem subperm (r : Course p) : r.spent.Subperm r.account.unspent :=
  r.funded.subperm (Plan.assetsOf_requiredAmounts_nodup r.amounts_eq)

end Course

/-! ## An example -/

/-- An unspent output of so many hundred-millionths of the fee asset. -/
def sampleUnspent (amount : Nat) : Unspent :=
  ⟨.zero, 0, Hash256.feeAsset, (Fixed8.ofWord amount).toDecimal⟩

/-- A payment of two units of the fee asset. -/
def samplePayment : Output := ⟨Hash256.feeAsset, .ofWord 200000000, .zero, by decide⟩

/-- An account that knows one output, of five units of the fee asset. -/
def sampleAccount : Account := ⟨⟨[0xac], .ok⟩, [sampleUnspent 500000000]⟩

/-- A plan that pays two units of the fee asset, and one to the network. -/
def samplePlan : Plan :=
  { Plan.new [] with
    contract := some ⟨List.replicate 20 1, rfl⟩
    account := some sampleAccount
    outputs := [samplePayment]
    networkFee := some "1" }

/-- The sample keeps within the bounds. -/
theorem samplePlan_bounded : samplePlan.Bounded where
  solvent a h := by
    cases h
    refine ⟨fun u hu => ?_, by decide⟩
    rw [List.mem_singleton.1 hu]
    exact ⟨⟨.ofWord 500000000, by decide⟩, rfl⟩
  few := by decide

/-- The way to the call of the sample: the output is spent, and two units of it come back. -/
def sampleCourse : Course samplePlan where
  contract := ⟨List.replicate 20 1, rfl⟩
  account := sampleAccount
  script := Script.Opcode.appCall.byte :: List.replicate 20 1
  networkFee := .ofWord 100000000
  systemFee := .zero
  fees := (Fixed8.ofWord 100000000).toDecimal
  amounts := [(Hash256.feeAsset, (Fixed8.ofWord 300000000).toDecimal)]
  spent := sampleAccount.unspent
  change := [{ samplePayment with recipient := sampleAccount.scriptHash }]
  attributes := []
  contract_eq := rfl
  account_eq := rfl
  interval_ne := by decide
  script_eq := rfl
  networkFee_is := ⟨rfl, by decide⟩
  systemFee_is := rfl
  fees_eq := rfl
  amounts_eq := by decide +kernel
  funded := by
    have hselect : sampleAccount.select Hash256.feeAsset (Fixed8.ofWord 300000000).toDecimal
        .asGiven = .ok ⟨sampleAccount.unspent, (Fixed8.ofWord 500000000).toDecimal,
          (Fixed8.ofWord 200000000).toDecimal⟩ := by
      decide +kernel
    exact .cover rfl hselect rfl .nil
  attributes_eq := rfl
  length_attributes := by decide

end LedgerClient.Call
