import LedgerClient.Proofs.Ledger.RoundTrip
import LedgerClient.Proofs.Ledger.Witnessing
import LedgerClient.Proofs.Wire.Yield

/-!
# What was read and what was built

An invocation that was built has a script, and its witnesses name their accounts and stand in order
(`Invocation.Built.sound`). Reading asks for none of this. It limits lengths, it gives a witness the
account that its verification names, and it leaves witnesses in the order in which they come: any
script and any witnesses within these limits can be read (`exists_read_iff`), also witnesses that
are out of order (`read_out_of_order`).
-/

namespace LedgerClient.Ledger

open Wire (Decides Yields)
open Witness (Ordered)

/-! ## What was built -/

/-- What building sees to: there is a script, and the witnesses name accounts and are in order. -/
structure Invocation.Sound (t : Invocation) : Prop where
  script : t.script ≠ []
  named : ∀ w ∈ t.witnesses, w.scriptHash ≠ none
  ordered : Ordered t.witnesses

/-- Nothing is built without a script. -/
theorem Invocation.Built.script_ne_nil {t : Invocation} (h : t.Built) : t.script ≠ [] := by
  induction h with
  | finish _ hfinish =>
    obtain ⟨hscript, rfl⟩ := finish_eq_ok_iff.1 hfinish
    exact hscript
  | witnesses _ hadd ih =>
    obtain ⟨_, -, rfl⟩ := addWitnesses_eq_ok_iff.1 hadd
    exact ih

/-- What is built is sound, whatever the steps were. -/
theorem Invocation.Built.sound {t : Invocation} (h : t.Built) : t.Sound := by
  obtain ⟨batches, hrun⟩ := h.exists_run
  obtain ⟨hordered, hstable⟩ := hrun.stablySorted (.inr .nil)
  refine ⟨h.script_ne_nil, fun w hw => hrun.scriptHash_ne_none w ?_, hordered⟩
  exact (hstable.mem_iff w).1 hw

/-! ## What was read -/

/-- The witness can be read: its scripts are short enough, and it is of the account that its
verification names. -/
structure Witness.Legible (w : Witness) : Prop where
  length_invocation : w.invocation.length ≤ Limits.maxScriptLength
  length_verification : w.verification.length ≤ Limits.maxScriptLength
  account : ofScripts w.invocation w.verification = w

/-- The witnesses can be read: there are few enough, and each can be. -/
def Witness.AllLegible (ws : List Witness) : Prop :=
  ws.length ≤ Limits.maxTransactionItems ∧ ∀ w ∈ ws, w.Legible

/-- A witness that is read is legible: its account was made of its verification. -/
theorem yields_witness : Yields Witness.decode Witness.Legible :=
  (Wire.yields_readCounted Limits.maxScriptLength).bind fun _ hinvocation =>
    (Wire.yields_readCounted Limits.maxScriptLength).map fun _ hverification =>
      ⟨hinvocation, hverification, rfl⟩

/-- So are the witnesses of a transaction. -/
theorem yields_witnesses :
    Yields (Wire.Counted.readList Witness.decode Limits.maxTransactionItems) Witness.AllLegible :=
  Wire.yields_readList yields_witness _

/-- The transaction can be read: its lists are short enough, and it has nothing that is not sent. -/
structure Transaction.Legible (t : Transaction) : Prop where
  length_attributes : t.attributes.length ≤ Limits.maxAttributes
  witnesses : Witness.AllLegible t.witnesses
  blank : { blank t.version with attributes := t.attributes, witnesses := t.witnesses } = t

/-- The invocation can be read: its script and its lists are short enough, and it pays only what its
version can say. -/
structure Invocation.Legible (t : Invocation) : Prop where
  length_script : t.script.length ≤ Limits.maxScriptLength
  gas : t.version = 0 → t.gas = .zero
  length_attributes : t.attributes.length ≤ Limits.maxAttributes
  length_inputs : t.inputs.length ≤ Limits.maxTransactionItems
  length_outputs : t.outputs.length ≤ Limits.maxTransactionItems
  witnesses : Witness.AllLegible t.witnesses

/-- A list that is read is no longer than the bound it was read with. -/
theorem yields_length {α : Type} (item : Wire.Decoder α) (max : Nat) :
    Yields (Wire.Counted.readList item max) (·.length ≤ max) :=
  (Wire.yields_readList (.any item) max).imp fun _ h => h.1

/-- A transaction that is read is legible. -/
theorem yields_transaction : Yields Transaction.decode Transaction.Legible :=
  (Yields.any _).bind fun _ _ => (yields_length _ _).bind fun _ hattributes =>
    yields_witnesses.map fun _ hwitnesses => ⟨hattributes, hwitnesses, rfl⟩

/-- So is an invocation. The amount of one of version zero is not sent, and is zero when it is
read. -/
theorem yields_invocation : Yields Invocation.decode Invocation.Legible := by
  rw [Invocation.decode]
  refine (Yields.any _).bind fun _ _ => (Yields.any _).bind fun tag _ => ?_
  split
  · exact .fail fun c => ⟨_, c, rfl⟩
  refine (Yields.any _).bind fun version _ =>
    (Wire.yields_readCounted Limits.maxScriptLength).bind fun script hscript => ?_
  refine (Yields.any _).bind_ite fun gas _ hzero => ?_
  refine (yields_length _ _).bind fun _ hattributes => (yields_length _ _).bind fun _ hinputs =>
    (yields_length _ _).bind fun _ houtputs => yields_witnesses.map fun _ hwitnesses => ?_
  have hgas : version = 0 → gas = .zero := fun hversion =>
    hzero fun hcarries => carriesGas_iff.1 hcarries hversion
  exact ⟨hscript, hgas, hattributes, hinputs, houtputs, hwitnesses⟩

/-! ## What can be read -/

/-- A legible witness is read back as it is. -/
theorem Witness.Legible.decides {w : Witness} (h : w.Legible) :
    Decides Witness.decode w.encode True (· = w) := by
  have hscript : Limits.maxScriptLength < 2 ^ (64 : Nat) := by decide
  have hread := decides_witness (Nat.lt_of_le_of_lt h.length_invocation hscript)
    (Nat.lt_of_le_of_lt h.length_verification hscript)
  refine hread.congr (iff_of_true ?_ trivial) fun _ hw => hw.trans h.account
  exact ⟨h.length_invocation, h.length_verification⟩

/-- Legible witnesses are read back as they are, in whatever order they stand. -/
theorem decides_witnesses {ws : List Witness} (h : Witness.AllLegible ws) :
    Decides (Wire.Counted.readList Witness.decode Limits.maxTransactionItems)
      (Wire.Counted.writeList Witness.encode ws) True (· = ws) := by
  obtain ⟨hlength, hlegible⟩ := h
  have hcount : ws.length < 2 ^ (64 : Nat) := Nat.lt_of_le_of_lt hlength (by decide)
  exact (Wire.decides_list Limits.maxTransactionItems hcount fun w hw =>
    (hlegible w hw).decides).congr (iff_of_true hlength trivial) fun _ => id

/-- A legible transaction is read back as it is. -/
theorem Transaction.Legible.decides {t : Transaction} (h : t.Legible) :
    Decides Transaction.decode t.encode True (· = t) := by
  have hcount : t.attributes.length < 2 ^ (64 : Nat) :=
    Nat.lt_of_le_of_lt h.length_attributes (by decide)
  have hattributes := Wire.decides_list Limits.maxAttributes hcount fun a _ =>
    decides_attribute a
  have hread : Decides Transaction.decode ([t.version] ++
      (Wire.Counted.writeList Attribute.encode t.attributes ++
        Wire.Counted.writeList Witness.encode t.witnesses)) _ (· = t) :=
    (Wire.decides_byte t.version).bind fun version hversion =>
      hattributes.bind fun attributes ha => (decides_witnesses h.witnesses).map fun ws hws => by
        rw [hversion, ha, hws]
        exact h.blank
  refine hread.congr (iff_of_true ?_ trivial) fun _ ht => ht
  exact ⟨trivial, h.length_attributes, trivial⟩

/-- Any legible witnesses are those of a transaction that can be read. -/
theorem exists_read_transaction {ws : List Witness} (h : Witness.AllLegible ws) (subject : String) :
    ∃ bs t, Transaction.decode.run subject bs = .ok t ∧ t.witnesses = ws := by
  have hlegible : ({ Transaction.new with witnesses := ws } : Transaction).Legible :=
    ⟨Nat.zero_le _, h, rfl⟩
  exact ⟨_, _, hlegible.decides.run subject, rfl⟩

/-- Legible witnesses are those that their scripts make. -/
theorem map_ofScripts {ws : List Witness} (h : ∀ w ∈ ws, w.Legible) :
    ws.map (fun w => Witness.ofScripts w.invocation w.verification) = ws :=
  (List.map_congr_left fun w hw => (h w hw).account).trans (List.map_id _)

/-- A legible invocation is read back as it is. -/
theorem Invocation.Legible.run {t : Invocation} (h : t.Legible) (subject : String) :
    Invocation.decode.run subject t.encode = .ok t := by
  have hread : t.Readable :=
    ⟨h.length_script, h.length_inputs, h.length_outputs, h.witnesses.1, fun w hw =>
      ⟨(h.witnesses.2 w hw).length_invocation, (h.witnesses.2 w hw).length_verification⟩⟩
  have hgas : (if t.version = 0 then .zero else t.gas) = t.gas := by
    split
    · next hversion => exact (h.gas hversion).symm
    · rfl
  refine (run_decode_eq_ok_iff t h.length_attributes subject).2 ⟨hread, ?_⟩
  rw [readBack, hgas, map_ofScripts h.witnesses.2]

/-- Any legible witnesses are those of an invocation that can be read, with any script that is
short enough. -/
theorem exists_read_invocation {script : Bytes} {ws : List Witness}
    (hscript : script.length ≤ Limits.maxScriptLength) (h : Witness.AllLegible ws)
    (subject : String) :
    ∃ bs t, Invocation.decode.run subject bs = .ok t ∧ t.script = script ∧ t.witnesses = ws := by
  have hlegible :
      ({ Invocation.new with script := script, witnesses := ws } : Invocation).Legible :=
    ⟨hscript, fun _ => rfl, Nat.zero_le _, Nat.zero_le _, Nat.zero_le _, h⟩
  exact ⟨_, _, hlegible.run subject, rfl, rfl⟩

/-- What reading promises of scripts and witnesses: that lengths are within the limits and that
witnesses are of the accounts that their verifications name, and nothing else. -/
theorem exists_read_iff (subject : String) :
    (∀ ws, (∃ bs t, Transaction.decode.run subject bs = .ok t ∧ t.witnesses = ws) ↔
      Witness.AllLegible ws) ∧
    (∀ script ws, (∃ bs t, Invocation.decode.run subject bs = .ok t ∧ t.script = script ∧
        t.witnesses = ws) ↔
      script.length ≤ Limits.maxScriptLength ∧ Witness.AllLegible ws) := by
  refine ⟨fun ws => ⟨?_, fun h => exists_read_transaction h subject⟩, fun script ws => ⟨?_, ?_⟩⟩
  · rintro ⟨bs, t, hrun, rfl⟩
    exact (yields_transaction.of_run hrun).witnesses
  · rintro ⟨bs, t, hrun, rfl, rfl⟩
    have hlegible := yields_invocation.of_run hrun
    exact ⟨hlegible.length_script, hlegible.witnesses⟩
  · rintro ⟨hscript, h⟩
    exact exists_read_invocation hscript h subject

/-- An invocation with two witnesses, the first of which is of the account that comes later. -/
def outOfOrder : Invocation :=
  { Invocation.new with
    script := [0x61]
    witnesses := [.ofScripts [] [0x52], .ofScripts [] [0x51]] }

/-- There are bytes that are read as witnesses out of order. -/
theorem read_out_of_order : ∃ t, Invocation.decode.run "invocation"
      [0xd1, 1, 1, 0x61, 0, 0, 0, 0, 0, 0, 0, 0, 0, 0, 0, 2, 0, 1, 0x52, 0, 1, 0x51] = .ok t ∧
    ¬ Ordered t.witnesses := by
  have hread : outOfOrder.Readable :=
    ⟨by decide, by decide, by decide, by decide, by decide⟩
  have hrun := (run_decode_eq_ok_iff _ (by decide) "invocation").2 ⟨hread, rfl⟩
  refine ⟨outOfOrder.readBack, hrun, fun hordered => ?_⟩
  have hrank : (Witness.ofScripts [] [0x52]).rank ≤ (Witness.ofScripts [] [0x51]).rank :=
    List.rel_of_pairwise_cons hordered (.head _)
  exact absurd hrank (by decide +kernel)

end LedgerClient.Ledger
