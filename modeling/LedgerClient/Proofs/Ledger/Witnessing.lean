import LedgerClient.Ledger.Witnessed
import LedgerClient.Proofs.Ledger.Draft
import LedgerClient.Proofs.Ledger.WitnessOrder

/-!
# Gathering witnesses

Witnesses come to a transaction while it is built and afterwards, singly and in batches, and some
batches are refused. Each call is followed here change by change on the transaction that it is made
on (`addInPlace`), which shows that a refusal leaves nothing behind (`run_addInPlace`). A `Run`
takes calls and steps of building in any number and order. The calls that succeed sort what they
were given into what the run began with, as if all had been sorted once (`Run.stablySorted`).
-/

namespace LedgerClient.Ledger

open Witness (Ordered SameByAccount StablySorted)

/-! ## Kinds of transactions -/

/-- A kind of transaction that is built step by step and whose witnesses can be changed. -/
class Endorsed (α : Type) extends Witnessed α where
  /-- One transaction is made of the other by a step of building that gives no witnesses. -/
  Builds : α → α → Prop
  /-- The transaction with its witnesses changed. -/
  mapWitnesses : (List Witness → List Witness) → α → α
  witnesses_of_builds {t t' : α} : Builds t t' → witnesses t' = witnesses t
  witnesses_mapWitnesses (f : List Witness → List Witness) (t : α) :
    witnesses (mapWitnesses f t) = f (witnesses t)
  addWitnesses_eq (t : α) (batch : List Witness) :
    addWitnesses t batch = (Witness.insert (witnesses t) batch).map fun _ =>
      mapWitnesses Witness.sort (mapWitnesses (· ++ batch) t)

open Witnessed Endorsed

/-- The steps of building a transaction, witnesses aside. -/
inductive Transaction.Builds : Transaction → Transaction → Prop
  | version (t : Transaction) (version : UInt8) : Builds t { t with version := version }
  | nonce (t : Transaction) (nonce : UInt32) : Builds t { t with nonce := some nonce }
  | validUntilBlock (t : Transaction) (height : UInt32) :
    Builds t { t with validUntilBlock := some height }
  | sender (t : Transaction) (sender : Hash160) : Builds t { t with sender := some sender }
  | systemFee (t : Transaction) (fee : Int) : Builds t { t with systemFee := some fee }
  | networkFee (t : Transaction) (fee : Int) : Builds t { t with networkFee := some fee }
  | script (t : Transaction) (script : Bytes) : Builds t { t with script := script }
  | attributes {t t' more} : t.withAttributes more = .ok t' → Builds t t'
  | cosigners (t : Transaction) (more : List Cosigner) : Builds t (t.withCosigners more)

instance : Endorsed Transaction where
  Builds := Transaction.Builds
  mapWitnesses f t := { t with witnesses := f t.witnesses }
  witnesses_of_builds h := by
    cases h with
    | attributes h =>
      obtain ⟨_, -, ⟨⟩⟩ := Except.bind_eq_ok_iff.1 h
      rfl
    | _ => rfl
  witnesses_mapWitnesses _ _ := rfl
  addWitnesses_eq t batch := by
    show Transaction.addWitnesses t batch = (Witness.insert t.witnesses batch).map _
    rw [Transaction.addWitnesses, Witness.insert]
    split <;> rfl

/-- The steps of building an invocation, witnesses aside; the last one finishes it. -/
inductive Invocation.Builds : Invocation → Invocation → Prop
  | version (t : Invocation) (version : UInt8) : Builds t { t with version := version }
  | script (t : Invocation) (script : Bytes) : Builds t { t with script := script }
  | gas (t : Invocation) (gas : Fixed8) : Builds t { t with gas := gas }
  | attributes {t t' more} : t.withAttributes more = .ok t' → Builds t t'
  | inputs (t : Invocation) (more : List Input) : Builds t (t.withInputs more)
  | outputs (t : Invocation) (more : List Output) : Builds t (t.withOutputs more)
  | finish {t t'} : t.finish = .ok t' → Builds t t'

instance : Endorsed Invocation where
  Builds := Invocation.Builds
  mapWitnesses f t := { t with witnesses := f t.witnesses }
  witnesses_of_builds h := by
    cases h with
    | attributes h =>
      obtain ⟨-, rfl⟩ := Invocation.withAttributes_eq_ok_iff.1 h
      rfl
    | finish h =>
      obtain ⟨-, rfl⟩ := Invocation.finish_eq_ok_iff.1 h
      rfl
    | _ => rfl
  witnesses_mapWitnesses _ _ := rfl
  addWitnesses_eq t batch := by
    show Invocation.addWitnesses t batch = (Witness.insert t.witnesses batch).map _
    rw [Invocation.addWitnesses, Witness.insert]
    split <;> rfl

section Calls

variable {α : Type} [Endorsed α]

/-! ## A call -/

/-- A call that adds a batch of witnesses to the transaction at hand, one change after the other. -/
def addInPlace (batch : List Witness) : ExceptT Error (StateM α) Unit := do
  if batch.any (·.scriptHash.isNone) then throw .witnessWithoutHash
  modify (mapWitnesses (· ++ batch))
  modify (mapWitnesses Witness.sort)

/-- A call leaves the transaction with the batch added or, if it is refused, as it was. -/
theorem run_addInPlace (t : α) (batch : List Witness) :
    (addInPlace batch).run.run t =
      match addWitnesses t batch with
      | .ok t' => (.ok (), t')
      | .error e => (.error e, t) := by
  rw [addWitnesses_eq, Witness.insert, addInPlace]
  cases batch.any (·.scriptHash.isNone) <;> rfl

/-- A batch that misses a hash is refused. -/
theorem addWitnesses_eq_error {batch : List Witness} (h : ∃ w ∈ batch, w.scriptHash = none)
    (t : α) : addWitnesses t batch = .error .witnessWithoutHash := by
  have hany : batch.any (·.scriptHash.isNone) = true := by simpa using h
  rw [addWitnesses_eq, Witness.insert, if_pos hany]
  rfl

/-- Any other batch is sorted in. -/
theorem addWitnesses_eq_ok {batch : List Witness} (h : ∀ w ∈ batch, w.scriptHash ≠ none)
    (t : α) : ∃ t', addWitnesses t batch = .ok t' ∧
      witnesses t' = Witness.sort (witnesses t ++ batch) := by
  have hany : ¬ batch.any (·.scriptHash.isNone) = true := by simpa using h
  refine ⟨mapWitnesses Witness.sort (mapWitnesses (· ++ batch) t), ?_, ?_⟩
  · rw [addWitnesses_eq, Witness.insert, if_neg hany]
    rfl
  · rw [witnesses_mapWitnesses, witnesses_mapWitnesses]

/-- A call that is refused changes nothing. -/
theorem eq_of_refused {t t' : α} {batch : List Witness} {e : Error}
    (h : (addInPlace batch).run.run t = (.error e, t')) : t' = t := by
  rw [run_addInPlace] at h
  split at h
  · cases h
  · exact (Prod.mk.inj h).2.symm

/-- A call that succeeds is given the hashes, and sorts the batch in. -/
theorem of_added {t t' : α} {batch : List Witness}
    (h : (addInPlace batch).run.run t = (.ok (), t')) :
    (∀ w ∈ batch, w.scriptHash ≠ none) ∧
      witnesses t' = Witness.sort (witnesses t ++ batch) := by
  by_cases hhash : ∃ w ∈ batch, w.scriptHash = none
  · rw [run_addInPlace, addWitnesses_eq_error hhash] at h
    cases h
  · have hbatch : ∀ w ∈ batch, w.scriptHash ≠ none := fun w hw hnone => hhash ⟨w, hw, hnone⟩
    obtain ⟨_, hadd, hsort⟩ := addWitnesses_eq_ok hbatch t
    rw [run_addInPlace, hadd] at h
    obtain ⟨-, rfl⟩ := Prod.mk.inj h
    exact ⟨hbatch, hsort⟩

/-! ## Runs -/

/-- What a run of calls and of steps of building makes of a transaction, and the batches of the
calls that succeeded. A refusal may be met at any point; the run can end there or go on. -/
inductive Run (start : α) : List (List Witness) → α → Prop
  | start : Run start [] start
  | builds {batches t t'} : Run start batches t → Builds t t' → Run start batches t'
  | added {batches batch t t'} : Run start batches t →
    (addInPlace batch).run.run t = (.ok (), t') → Run start (batches ++ [batch]) t'
  | refused {batches batch t t' e} : Run start batches t →
    (addInPlace batch).run.run t = (.error e, t') → Run start batches t'

variable {start start' t t' : α} {batches batches' : List (List Witness)}

/-- Adding by value is a call that succeeds. -/
theorem Run.add {batch : List Witness} (h : Run start batches t)
    (hadd : addWitnesses t batch = .ok t') : Run start (batches ++ [batch]) t' := by
  refine h.added ?_
  rw [run_addInPlace, hadd]

/-- A call that succeeds sorts its batch in with all that the transaction holds. -/
theorem stablySorted_of_added {batch : List Witness}
    (h : SameByAccount (witnesses t) (witnesses start ++ batches.flatten))
    (hcall : (addInPlace batch).run.run t = (.ok (), t')) :
    StablySorted (witnesses start ++ (batches ++ [batch]).flatten) (witnesses t') := by
  rw [(of_added hcall).2, List.flatten_append, List.flatten_singleton, ← List.append_assoc]
  exact .insert h batch

/-- A run keeps the witnesses of each account, in the order in which they came. -/
theorem Run.sameByAccount (h : Run start batches t) :
    SameByAccount (witnesses t) (witnesses start ++ batches.flatten) := by
  -- Before the first call that succeeds there need be no order, only the order by account.
  induction h with
  | start =>
    intro account
    rw [List.flatten_nil, List.append_nil]
  | builds _ hbuilds ih => rwa [witnesses_of_builds hbuilds]
  | added _ hcall ih => exact (stablySorted_of_added ih hcall).stable
  | refused _ hcall ih => rwa [eq_of_refused hcall]

/-- There is a call that succeeds, or the witnesses are in order to begin with. -/
def PutsInOrder (start : α) (batches : List (List Witness)) : Prop :=
  batches ≠ [] ∨ Ordered (witnesses start)

/-- A run sorts all witnesses as if they had been sorted once, stably. -/
theorem Run.stablySorted (h : Run start batches t) (hsorts : PutsInOrder start batches) :
    StablySorted (witnesses start ++ batches.flatten) (witnesses t) := by
  induction h with
  | start =>
    obtain hne | hordered := hsorts
    · exact absurd rfl hne
    · refine ⟨hordered, fun account => ?_⟩
      rw [List.flatten_nil, List.append_nil]
  | builds _ hbuilds ih =>
    rw [witnesses_of_builds hbuilds]
    exact ih hsorts
  | added hrun hcall _ => exact stablySorted_of_added hrun.sameByAccount hcall
  | refused _ hcall ih =>
    rw [eq_of_refused hcall]
    exact ih hsorts

/-- However witnesses of distinct accounts are ordered and batched, what results is the same. -/
theorem Run.witnesses_eq (h : Run start batches t) (h' : Run start' batches' t')
    (hstart : witnesses start = witnesses start') (hsorts : PutsInOrder start batches)
    (hsorts' : PutsInOrder start' batches') (hperm : batches.flatten.Perm batches'.flatten)
    (hdistinct : (batches.flatten.map Witness.scriptHash).Nodup) : witnesses t = witnesses t' := by
  have hsame : SameByAccount (witnesses start ++ batches.flatten)
      (witnesses start' ++ batches'.flatten) := fun account => by
    rw [Witness.ofAccount_append, Witness.ofAccount_append, hstart,
      Witness.sameByAccount_of_perm hperm hdistinct]
  obtain ⟨hordered, hstable⟩ := h.stablySorted hsorts
  exact StablySorted.unique ⟨hordered, fun account => (hstable account).trans (hsame account)⟩
    (h'.stablySorted hsorts')

/-- Witnesses that a run adds name their accounts. -/
theorem Run.scriptHash_ne_none (h : Run start batches t) :
    ∀ w ∈ batches.flatten, w.scriptHash ≠ none := by
  induction h with
  | start => exact fun w hw => nomatch hw
  | builds _ _ ih => exact ih
  | added _ hcall ih =>
    rw [List.flatten_append, List.flatten_singleton]
    exact List.forall_mem_append.2 ⟨ih, (of_added hcall).1⟩
  | refused _ _ ih => exact ih

/-! ## What holds of both kinds -/

/-- The witnesses of a kind of transaction are kept in order over whole runs. -/
structure KeepsOrder (α : Type) [Endorsed α] : Prop where
  /-- A batch that misses a hash is refused, and the transaction stays as it was. -/
  refuses (t : α) (batch : List Witness) : (∃ w ∈ batch, w.scriptHash = none) →
    ∃ e : Error, e.category = .validation ∧ addWitnesses t batch = .error e ∧
      (addInPlace batch).run.run t = (.error e, t)
  /-- Any other batch is taken. -/
  takes (t : α) (batch : List Witness) : (∀ w ∈ batch, w.scriptHash ≠ none) →
    ∃ t', addWitnesses t batch = .ok t' ∧ (addInPlace batch).run.run t = (.ok (), t')
  /-- The witnesses are the stable sort of the first ones and of those of the batches. -/
  sorts {start t : α} {batches : List (List Witness)} : Run start batches t →
    PutsInOrder start batches → ∀ ws,
      StablySorted (witnesses start ++ batches.flatten) ws ↔ ws = witnesses t
  /-- No witness is lost or taken twice. -/
  keeps {start t : α} {batches : List (List Witness)} : Run start batches t →
    (witnesses t).Perm (witnesses start ++ batches.flatten)
  /-- In which order and in which batches witnesses of distinct accounts come does not matter. -/
  agrees {start start' t t' : α} {batches batches' : List (List Witness)} :
    Run start batches t → Run start' batches' t' → witnesses start = witnesses start' →
    PutsInOrder start batches → PutsInOrder start' batches' →
    batches.flatten.Perm batches'.flatten →
    (batches.flatten.map Witness.scriptHash).Nodup → witnesses t = witnesses t'

/-- What the calls do to the witnesses is the same for all kinds of transactions, and so all kinds
keep them in order. -/
theorem keepsOrder : KeepsOrder α where
  refuses t batch h := by
    refine ⟨.witnessWithoutHash, rfl, addWitnesses_eq_error h t, ?_⟩
    rw [run_addInPlace, addWitnesses_eq_error h]
  takes t batch h := by
    obtain ⟨t', hadd, -⟩ := addWitnesses_eq_ok h t
    refine ⟨t', hadd, ?_⟩
    rw [run_addInPlace, hadd]
  sorts hrun hsorts ws := by
    constructor
    · exact fun h => h.unique (hrun.stablySorted hsorts)
    · rintro rfl
      exact hrun.stablySorted hsorts
  keeps hrun := hrun.sameByAccount.perm
  agrees := Run.witnesses_eq

end Calls

/-- Transactions and invocations keep their witnesses in order, in whatever way they are built and
witnesses are added to them. -/
theorem witnesses_keep_order : KeepsOrder Transaction ∧ KeepsOrder Invocation :=
  ⟨keepsOrder, keepsOrder⟩

/-- A witness of the account whose hash repeats a byte. -/
def sampleWitness (b : UInt8) : Witness :=
  ⟨[], [], some ⟨List.replicate 20 b, List.length_replicate⟩⟩

/-- Two witnesses come to the same list in one batch and in two, the other way round. -/
theorem witnesses_keep_order_sample : ∃ t t' : Invocation,
    Run .new [[sampleWitness 1, sampleWitness 2]] t ∧
      Run .new [[sampleWitness 2], [sampleWitness 1]] t' ∧ t.witnesses = t'.witnesses := by
  obtain ⟨-, hkeeps⟩ := witnesses_keep_order
  obtain ⟨t, -, ht⟩ := hkeeps.takes .new [sampleWitness 1, sampleWitness 2] (by decide)
  obtain ⟨u, -, hu⟩ := hkeeps.takes .new [sampleWitness 2] (by decide)
  obtain ⟨t', -, ht'⟩ := hkeeps.takes u [sampleWitness 1] (by decide)
  have hrun := Run.start.added ht
  have hrun' := (Run.start.added hu).added ht'
  refine ⟨t, t', hrun, hrun', hkeeps.agrees hrun hrun' rfl ?_ ?_ ?_ ?_⟩
  · exact .inl (List.cons_ne_nil _ _)
  · exact .inl (List.cons_ne_nil _ _)
  · exact List.Perm.swap ..
  · decide

/-! ## What was built -/

namespace Invocation

/-- A draft was left by a run that began with the new invocation. -/
theorem Draft.exists_run {t : Invocation} (h : Draft t) :
    ∃ batches, Run Invocation.new batches t := by
  induction h with
  | new => exact ⟨[], .start⟩
  | version version _ ih => exact ih.imp fun _ hrun => hrun.builds (.version _ version)
  | script script _ ih => exact ih.imp fun _ hrun => hrun.builds (.script _ script)
  | gas gas _ ih => exact ih.imp fun _ hrun => hrun.builds (.gas _ gas)
  | attributes _ hmore ih => exact ih.imp fun _ hrun => hrun.builds (.attributes hmore)
  | inputs more _ ih => exact ih.imp fun _ hrun => hrun.builds (.inputs _ more)
  | outputs more _ ih => exact ih.imp fun _ hrun => hrun.builds (.outputs _ more)
  | witnesses _ hadd ih =>
    obtain ⟨batches, hrun⟩ := ih
    exact ⟨_, hrun.add hadd⟩

/-- So was an invocation that was built. -/
theorem Built.exists_run {t : Invocation} (h : Built t) :
    ∃ batches, Run Invocation.new batches t := by
  induction h with
  | finish hdraft hfinish => exact hdraft.exists_run.imp fun _ hrun => hrun.builds (.finish hfinish)
  | witnesses _ hadd ih =>
    obtain ⟨batches, hrun⟩ := ih
    exact ⟨_, hrun.add hadd⟩

end Invocation

end LedgerClient.Ledger
