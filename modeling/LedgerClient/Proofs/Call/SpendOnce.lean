import LedgerClient.Proofs.Call.Buildable
import LedgerClient.Proofs.Call.Conservation

/-!
# Spending an output once

An account spends each output that it knows at most once (`Course.subperm`), so that the inputs of
its calls lie at distinct places as long as those outputs do. It does not look at places itself: an
output that was added twice is spent twice by any call that needs all it knows
(`Course.spent_perm`), and there always are payments that do (`exists_payments`).
-/

namespace LedgerClient.Call

open Ledger (Hash160 Hash256 Input Output Unspent)
open Wallet (Account Signer)
open Wallet.Selection (ofAsset)

/-- The inputs of a call of an account that knows distinct places are distinct. -/
theorem Course.inputs_nodup {p : Plan} (r : Course p) (h : r.account.Distinct) :
    r.transaction.inputs.Nodup := by
  obtain ⟨us, hperm, hsublist⟩ := r.subperm
  have hplaces : (us.map Unspent.toInput).Nodup := h.sublist (hsublist.map _)
  exact (hperm.map _).nodup_iff.1 hplaces

/-! ## Spending everything -/

/-- Some of several positive outputs are all of them if they are worth as much. -/
theorem perm_of_worth_le {us vs : List Unspent} (h : us.Subperm vs) (hvs : ∀ v ∈ vs, v.IsPositive)
    (hworth : Unspent.worth vs ≤ Unspent.worth us) : us.Perm vs := by
  obtain ⟨rest, hrest⟩ := Unspent.exists_perm_append h
  have hsum := Unspent.worth_perm hrest
  rw [Unspent.worth_append] at hsum
  cases rest with
  | nil =>
    rw [List.append_nil] at hrest
    exact hrest.symm
  | cons v rest =>
    have hpositive : ∀ w ∈ v :: rest, w.IsPositive := fun w hw =>
      hvs w (hrest.mem_iff.2 (List.mem_append_right _ hw))
    have hv := (hpositive v (.head _)).count_pos
    have hnonneg := Unspent.worth_nonneg fun w hw => hpositive w (.tail _ hw)
    rw [Unspent.worth_cons] at hsum
    omega

/-- A call that needs all that its account knows spends all of it. -/
theorem Course.spent_perm {p : Plan} (r : Course p) (hp : p.Bounded)
    (hall : ∀ asset, Unspent.worth (r.account.unspentOf asset) ≤
      required p.outputs r.feeCount asset) : r.spent.Perm r.account.unspent := by
  have ha := r.solvent hp
  rw [List.perm_iff_count]
  intro u
  have hsub := r.funded.ofAsset_subperm (r.tallies hp).nodup u.asset
  have hworth := r.worth_ofAsset hp u.asset
  have hchange := Output.worth_nonneg (Output.ofAsset u.asset r.change)
  have hneeded := hall u.asset
  have hperm := perm_of_worth_le hsub (fun v hv => ha.isPositive hv) (by omega)
  have hcount := hperm.count_eq u
  rwa [Account.unspentOf, Wallet.Selection.count_ofAsset, Wallet.Selection.count_ofAsset] at hcount

/-- The plan that makes an account call a contract along with payments, without fees. -/
def Plan.paying (contract : Hash160) (account : Account) (outputs : List Output) : Plan :=
  { Plan.new [] with contract := some contract, account := some account, outputs := outputs }

/-- A call is built that pays what the account can pay. -/
theorem meets_paying {contract : Hash160} {account : Account} {outputs : List Output}
    (ha : account.Solvent)
    (hfunds : ∀ asset, paid outputs asset ≤ Unspent.worth (account.unspentOf asset)) :
    (Plan.paying contract account outputs).Meets account .zero .zero where
  contract_isSome := rfl
  account_eq := rfl
  interval_ne := (by decide : Rpc.PollPolicy.default.interval ≠ 0)
  pushable := nofun
  networkFee_is := rfl
  systemFee_is := rfl
  funds asset := by
    rw [funds_iff ha]
    have hrequired : required outputs 0 asset = paid outputs asset := by
      rw [required, ite_self, Int.add_zero]
    exact hrequired.trans_le (hfunds asset)
  remark_length _ := Nat.zero_le _
  length_attributes := by
    have hadditions := Plan.additions_le (Plan.paying contract account outputs) account .zero .zero
    show 0 + _ ≤ 16
    omega

/-- A call is built that pays all that the account knows, and its inputs are all places that the
account knows. -/
theorem exists_build_perm (contract : Hash160) {account : Account} {outputs : List Output}
    (ha : account.Solvent) (hfew : outputs.length < 2 ^ 32)
    (hall : ∀ asset, paid outputs asset = Unspent.worth (account.unspentOf asset)) :
    ∃ c, (Plan.paying contract account outputs).build = .ok c ∧
      c.transaction.inputs.Perm account.places := by
  have hp : (Plan.paying contract account outputs).Bounded := by
    refine ⟨fun a h => ?_, hfew⟩
    cases h
    exact ha
  obtain ⟨r⟩ := (meets_paying ha fun asset => (hall asset).le).exists_course hp
  have haccount : account = r.account := Option.some.inj r.account_eq
  have hperm := r.spent_perm hp fun asset => by
    have hfees := r.feeCount_nonneg
    have hpaid : paid outputs asset ≤ required outputs r.feeCount asset := by
      rw [required]
      split <;> omega
    rw [← haccount, ← hall asset]
    exact hpaid
  rw [← haccount] at hperm
  exact ⟨r.prepared, build_eq_ok_iff.2 ⟨r, rfl⟩, hperm.map Unspent.toInput⟩

/-- Where two known outputs lie at one place, a call that pays all that the account knows has an
input twice. -/
theorem exists_repeated (contract : Hash160) {account : Account} {outputs : List Output}
    (ha : account.Solvent) (hrepeated : ¬ account.Distinct) (hfew : outputs.length < 2 ^ 32)
    (hall : ∀ asset, paid outputs asset = Unspent.worth (account.unspentOf asset)) :
    ∃ c, (Plan.paying contract account outputs).build = .ok c ∧ ¬ c.transaction.inputs.Nodup := by
  obtain ⟨c, hbuild, hperm⟩ := exists_build_perm contract ha hfew hall
  exact ⟨c, hbuild, fun hnodup => hrepeated (hperm.nodup_iff.1 hnodup)⟩

/-- There are payments of all that spendable outputs hold. -/
theorem exists_payments {us : List Unspent} (h : ∀ u ∈ us, u.IsSpendable) (recipient : Hash160) :
    ∃ outputs : List Output, outputs.length = us.length ∧
      ∀ asset, paid outputs asset = Unspent.worth (ofAsset asset us) := by
  induction us with
  | nil => exact ⟨[], rfl, fun _ => rfl⟩
  | cons u us ih =>
    obtain ⟨outputs, hlength, hworth⟩ := ih fun v hv => h v (.tail _ hv)
    obtain ⟨⟨amount, hpos⟩, hamount⟩ := h u (.head _)
    have hcount := (Ledger.positiveAmount_eq_ok_iff.1 hamount).count_eq
    refine ⟨⟨u.asset, amount, recipient, hpos⟩ :: outputs, congrArg _ hlength, fun asset => ?_⟩
    rw [paid_cons, hworth asset, ofAsset, ofAsset, List.filter_cons]
    by_cases hasset : asset = u.asset
    · subst hasset
      simp [hcount]
    · simp [hasset, Ne.symm hasset]

/-! ## Calls after a history -/

/-- Whatever an account has been told, as long as the outputs that it knows lie at distinct places,
as they do if only fresh ones were added, no call that is built with it has an input twice. Nothing
less will do: with any other outputs, if they can be spent at all, some call has an input twice. -/
theorem build_inputs_nodup {account : Account} {signer : Signer} {steps : List Account.Step}
    (haccount : account = (Account.ofSigner signer).run steps) :
    ((Account.ofSigner signer).Fresh steps → account.Distinct) ∧
    (account.Distinct → ∀ (p : Plan) (c : Prepared), p.account = some account → p.build = .ok c →
      c.transaction.inputs.Nodup) ∧
    (account.Solvent → ¬ account.Distinct → ∃ (p : Plan) (c : Prepared),
      p.account = some account ∧ p.build = .ok c ∧ ¬ c.transaction.inputs.Nodup) := by
  refine ⟨fun hfresh => ?_, ?_, ?_⟩
  · rw [haccount]
    exact Account.Distinct.run List.nodup_nil hfresh
  · intro hdistinct p c hp hbuild
    obtain ⟨r, rfl⟩ := build_eq_ok_iff.1 hbuild
    have heq : account = r.account := Option.some.inj (hp.symm.trans r.account_eq)
    exact r.inputs_nodup (heq ▸ hdistinct)
  · intro hsolvent hrepeated
    obtain ⟨outputs, hlength, hall⟩ := exists_payments hsolvent.spendable .zero
    obtain ⟨c, hbuild, hnodup⟩ := exists_repeated .zero hsolvent hrepeated
      (hlength.trans_lt hsolvent.few) hall
    exact ⟨_, c, rfl, hbuild, hnodup⟩

/-- An output of one unit of the fee asset, at a place with the given index. -/
def unitAt (index : UInt16) : Unspent := { sampleUnspent 100000000 with index := index }

section TwoUnits

variable {account : Account} {i j : UInt16}

/-- An account that was told of two outputs of one unit is solvent. -/
theorem solvent_of_two_units (hknown : account.unspent = [unitAt i, unitAt j]) :
    account.Solvent := by
  have hspendable : (sampleUnspent 100000000).IsSpendable := ⟨⟨.ofWord 100000000, by decide⟩, rfl⟩
  have hunit : ∀ index, (unitAt index).IsSpendable := fun _ => hspendable
  have hfew : [unitAt i, unitAt j].length < 2 ^ 32 := (by decide : 2 < 2 ^ 32)
  refine ⟨fun u hu => ?_, hknown ▸ hfew⟩
  rw [hknown] at hu
  obtain rfl | hu := List.mem_cons.1 hu
  · exact hunit i
  · exact List.mem_singleton.1 hu ▸ hunit j

/-- What it knows is what a payment of two units asks for. -/
theorem paid_two_units (hknown : account.unspent = [unitAt i, unitAt j]) (asset : Hash256) :
    paid [samplePayment] asset = Unspent.worth (account.unspentOf asset) := by
  rw [Account.unspentOf, hknown]
  by_cases hasset : asset = Hash256.feeAsset
  · subst hasset
    have hunits : ∀ u ∈ [unitAt i, unitAt j], u.asset = Hash256.feeAsset := by
      simp [unitAt, sampleUnspent]
    have hvalue : (sampleUnspent 100000000).value.count = 100000000 := by decide +kernel
    have hcount : ∀ index, (unitAt index).value.count = 100000000 := fun _ => hvalue
    have hpaid : paid [samplePayment] Hash256.feeAsset = 200000000 := by decide +kernel
    rw [Wallet.Selection.ofAsset_eq_self hunits, Unspent.worth_cons, Unspent.worth_cons, hcount,
      hcount, hpaid]
    rfl
  · have hnone : ∀ u ∈ [unitAt i, unitAt j], u.asset ≠ asset := by
      simp [unitAt, sampleUnspent, Ne.symm hasset]
    have hother : asset ≠ samplePayment.asset := hasset
    rw [paid_cons, if_neg hother, Wallet.Selection.ofAsset_eq_nil hnone]
    rfl

end TwoUnits

/-- An account that has been told of two outputs of one unit, at two places. -/
def toldOfTwo : Account :=
  (Account.ofSigner ⟨[0xac], .ok⟩).run [.add (unitAt 0), .addAll [unitAt 1]]

/-- The two outputs were new when they were added, and a payment of two units spends both of them,
each once. -/
theorem build_inputs_nodup_sample :
    (Account.ofSigner ⟨[0xac], .ok⟩).Fresh [.add (unitAt 0), .addAll [unitAt 1]] ∧
    toldOfTwo.Distinct ∧
    ∃ c, (Plan.paying .zero toldOfTwo [samplePayment]).build = .ok c ∧
      c.transaction.inputs.Perm [⟨.zero, 0⟩, ⟨.zero, 1⟩] ∧ c.transaction.inputs.Nodup := by
  have hknown : toldOfTwo.unspent = [unitAt 0, unitAt 1] := rfl
  have hfresh : (Account.ofSigner ⟨[0xac], .ok⟩).Fresh [.add (unitAt 0), .addAll [unitAt 1]] :=
    ⟨by decide, by decide, by decide, by decide, trivial⟩
  obtain ⟨hplaces, hinputs, -⟩ := build_inputs_nodup (rfl : toldOfTwo = _)
  have hdistinct := hplaces hfresh
  obtain ⟨c, hbuild, hperm⟩ := exists_build_perm .zero (solvent_of_two_units hknown) (by decide)
    (paid_two_units hknown)
  exact ⟨hfresh, hdistinct, c, hbuild, hperm, hinputs hdistinct _ c rfl hbuild⟩

/-- An account that has been told of one output twice, of one unit of the fee asset. -/
def toldTwice : Account :=
  (Account.ofSigner ⟨[0xac], .ok⟩).run
    [.add (sampleUnspent 100000000), .add (sampleUnspent 100000000)]

/-- An output that an account has been told of twice is spent twice by a payment of two units. -/
theorem build_inputs_repeated : ∃ c, (Plan.paying .zero toldTwice [samplePayment]).build = .ok c ∧
    ¬ c.transaction.inputs.Nodup := by
  have hknown : toldTwice.unspent = [unitAt 0, unitAt 0] := rfl
  have hrepeated : ¬ toldTwice.places.Nodup := by decide
  exact exists_repeated .zero (solvent_of_two_units hknown) hrepeated (by decide)
    (paid_two_units hknown)

end LedgerClient.Call
