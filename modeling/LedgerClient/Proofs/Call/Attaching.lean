import LedgerClient.Proofs.Call.Building
import LedgerClient.Proofs.Ledger.Admission

/-!
# Attributes of built calls

Building adds attributes to those of the plan by what the transaction spends and pays: one that
names the account where inputs or outputs are missing, and a remark where both are
(`Course.exists_remarks`). What is missing follows from the plan. All amounts that are required are
positive, and a positive amount is never covered by spending nothing, whatever the account's outputs
are worth; so nothing is spent exactly if nothing is paid and there are no fees
(`Course.spent_eq_nil_iff`), and then nothing comes back either. So every transaction that is built
differs from the others of its account by an output that it spends, or else by a remark
(`build_attaches`).
-/

namespace LedgerClient.Call

open Ledger (Attribute Unspent Invocation)
open Wallet (Account)

/-! ## What is missing -/

/-- Without anything spent there is no change. -/
theorem Funded.change_eq_nil {account : Account} {strategy : Wallet.Strategy}
    {amounts : List (Ledger.Hash256 × Decimal)} {spent : List Unspent}
    {change : List Ledger.Output} (h : Funded account strategy amounts spent change)
    (hpos : ∀ p ∈ amounts, 0 < p.2.mantissa) (hspent : spent = []) : change = [] := by
  obtain rfl := (h.spent_eq_nil_iff hpos).1 hspent
  cases h
  rfl

namespace Course

variable {p : Plan}

/-- All amounts that a course asks for are positive. -/
theorem mantissa_pos (r : Course p) : ∀ q ∈ r.amounts, 0 < q.2.mantissa :=
  Plan.mantissa_pos_of_requiredAmounts r.amounts_eq

/-- Nothing is spent exactly if nothing is paid and there are no fees. -/
theorem spent_eq_nil_iff (r : Course p) :
    r.spent = [] ↔ p.outputs = [] ∧ r.networkFee.raw = 0 ∧ r.systemFee.raw = 0 := by
  have hnetwork := r.networkFee_is.nonneg
  have hsystem := r.systemFee_is.nonneg
  rw [r.funded.spent_eq_nil_iff r.mantissa_pos, Plan.requiredAmounts_eq_nil_iff r.amounts_eq,
    r.counts_fees.mantissa_pos_iff, feeCount]
  refine and_congr_right fun _ => ?_
  omega

/-- So the transaction has no input exactly if nothing is paid and there are no fees. -/
theorem no_inputs_iff (r : Course p) :
    r.transaction.inputs = [] ↔
      p.outputs = [] ∧ r.networkFee.raw = 0 ∧ r.systemFee.raw = 0 := by
  rw [← r.spent_eq_nil_iff]
  exact List.map_eq_nil_iff

/-- A transaction that spends nothing pays nothing. -/
theorem no_outputs_of_no_inputs (r : Course p) (h : r.transaction.inputs = []) :
    r.transaction.outputs = [] := by
  have hchange := r.funded.change_eq_nil r.mantissa_pos (List.map_eq_nil_iff.1 h)
  exact List.append_eq_nil_iff.2 ⟨(r.no_inputs_iff.1 h).1, hchange⟩

/-! ## What is added -/

/-- Where neither inputs nor outputs are there is one remark, and elsewhere there is none. -/
theorem exists_remarks (r : Course p) : ∃ remarks,
    r.attributes = Plan.nameAccount r.account.scriptHash r.transaction.inputs r.transaction.outputs
      p.attributes ++ remarks ∧
    if r.transaction.inputs = [] ∧ r.transaction.outputs = [] then
      ∃ a, remarks = [a] ∧ a.usage = .remark 0 ∧ a.data = p.remark
    else remarks = [] := by
  have hadded := addRemark_eq_ok_iff.1 r.attributes_eq
  by_cases hempty : r.transaction.inputs = [] ∧ r.transaction.outputs = []
  · obtain ⟨a, ha, hattributes⟩ := (if_pos hempty).mp hadded
    refine ⟨[a], hattributes, ?_⟩
    rw [if_pos hempty]
    exact ⟨a, rfl, Attribute.ofData_eq_ok_iff.1 ha⟩
  · refine ⟨[], ?_, if_neg hempty ▸ rfl⟩
    rw [List.append_nil]
    exact (if_neg hempty).mp hadded

end Course

/-- What a transaction built from a plan spends and pays, and which attributes it has for that. -/
structure Attaches (p : Plan) (account : Account) (networkFee systemFee : Fixed8)
    (t : Invocation) : Prop where
  /-- Nothing is spent exactly if nothing is paid and there are no fees. -/
  inputs_eq_nil_iff : t.inputs = [] ↔ p.outputs = [] ∧ networkFee.raw = 0 ∧ systemFee.raw = 0
  outputs_eq_nil : t.inputs = [] → t.outputs = []
  /-- The attributes of the plan come first, then the one that names the account, then the
  remark. -/
  attributes_eq : ∃ remarks, t.attributes = p.attributes ++
      (if (t.inputs = [] ∨ t.outputs = []) ∧ Attribute.script account.scriptHash ∉ p.attributes
        then [Attribute.script account.scriptHash] else []) ++ remarks ∧
    if t.inputs = [] ∧ t.outputs = [] then
      ∃ a, remarks = [a] ∧ a.usage = .remark 0 ∧ a.data = p.remark
    else remarks = []
  /-- The transaction spends what the account has, or names the account and ends in the remark. -/
  spends_or_marks : (∃ u ∈ account.unspent, u.toInput ∈ t.inputs) ∨
    ∃ front a, t.attributes = front ++ [a] ∧ Attribute.script account.scriptHash ∈ front ∧
      a.usage = .remark 0 ∧ a.data = p.remark

namespace Course

variable {p : Plan}

/-- The transaction of a course spends and pays, and has the attributes, as `Attaches` says. -/
theorem attaches (r : Course p) :
    Attaches p r.account r.networkFee r.systemFee r.transaction where
  inputs_eq_nil_iff := r.no_inputs_iff
  outputs_eq_nil := r.no_outputs_of_no_inputs
  attributes_eq := by
    obtain ⟨remarks, hattributes, hremarks⟩ := r.exists_remarks
    rw [nameAccount_eq] at hattributes
    exact ⟨remarks, hattributes, hremarks⟩
  spends_or_marks := by
    by_cases hinputs : r.transaction.inputs = []
    · right
      have hempty := And.intro hinputs (r.no_outputs_of_no_inputs hinputs)
      obtain ⟨remarks, hattributes, hremarks⟩ := r.exists_remarks
      obtain ⟨a, rfl, ha⟩ := (if_pos hempty).mp hremarks
      exact ⟨_, a, hattributes, script_mem_nameAccount _ (.inl hinputs), ha⟩
    · left
      obtain ⟨i, hi⟩ := List.exists_mem_of_ne_nil _ hinputs
      obtain ⟨u, hu, rfl⟩ := List.mem_map.1 hi
      exact ⟨u, r.subperm.subset hu, hi⟩

end Course

/-- Every transaction that is built spends some of the account's outputs, or carries the attribute
that names the account and a remark; it has these attributes behind those of the plan exactly where
they are needed. -/
theorem build_attaches {p : Plan} {c : Prepared} (h : p.build = .ok c) :
    p.account = some c.account ∧ ∃ networkFee systemFee,
      FeeIs p.networkFee networkFee ∧ FeeIs p.systemFee systemFee ∧
        Attaches p c.account networkFee systemFee c.transaction := by
  obtain ⟨r, rfl⟩ := build_eq_ok_iff.1 h
  exact ⟨r.account_eq, r.networkFee, r.systemFee, r.networkFee_is, r.systemFee_is, r.attaches⟩

/-- A plan that neither pays nor has fees, and names its account already. -/
def idlePlan : Plan :=
  { samplePlan with
    attributes := [Attribute.script sampleAccount.scriptHash]
    outputs := []
    networkFee := none
    remark := List.replicate Limits.remarkSize 7 }

/-- The remark of the plan. -/
def idleRemark : Attribute := ⟨.remark 0, idlePlan.remark, rfl, rfl⟩

/-- The way to its call: nothing is spent, and the account is not named again. -/
def idleCourse : Course idlePlan where
  contract := sampleCourse.contract
  account := sampleAccount
  script := sampleCourse.script
  networkFee := .zero
  systemFee := .zero
  fees := Fixed8.zero.toDecimal
  amounts := []
  spent := []
  change := []
  attributes := [Attribute.script sampleAccount.scriptHash, idleRemark]
  contract_eq := rfl
  account_eq := rfl
  interval_ne := sampleCourse.interval_ne
  script_eq := sampleCourse.script_eq
  networkFee_is := rfl
  systemFee_is := rfl
  fees_eq := rfl
  amounts_eq := rfl
  funded := .nil
  attributes_eq := by
    have hnamed : Attribute.script sampleAccount.scriptHash ∈ idlePlan.attributes := .head _
    rw [nameAccount_eq, if_neg fun h => h.2 hnamed, addRemark_eq_ok_iff]
    exact ⟨idleRemark, rfl, rfl⟩
  length_attributes := by decide

/-- The idle plan is built into a transaction without inputs, whose attributes are those of the plan
and the remark: the account is not named a second time. -/
theorem build_attaches_sample : ∃ c, idlePlan.build = .ok c ∧ c.transaction.inputs = [] ∧
    ∃ a, c.transaction.attributes = idlePlan.attributes ++ [a] ∧ a.data = idlePlan.remark := by
  have hbuild : idlePlan.build = .ok idleCourse.prepared := build_eq_ok_iff.2 ⟨idleCourse, rfl⟩
  obtain ⟨-, _, _, rfl, rfl, hattaches⟩ := build_attaches hbuild
  have hinputs := hattaches.inputs_eq_nil_iff.2 ⟨rfl, rfl, rfl⟩
  obtain ⟨remarks, hattributes, hremarks⟩ := hattaches.attributes_eq
  obtain ⟨a, rfl, -, hdata⟩ := (if_pos ⟨hinputs, hattaches.outputs_eq_nil hinputs⟩).mp hremarks
  have hnamed : Attribute.script idleCourse.account.scriptHash ∈ idlePlan.attributes := .head _
  rw [if_neg fun h => h.2 hnamed, List.append_nil] at hattributes
  exact ⟨_, hbuild, hinputs, a, hattributes, hdata⟩

end LedgerClient.Call
