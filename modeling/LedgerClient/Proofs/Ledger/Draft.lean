import LedgerClient.Ledger.Invocation
import LedgerClient.Proofs.Result

/-!
# Drafts of invocations

A `Draft` is what the steps of building make of the new invocation, in whatever order and number
they are taken, and an invocation is `Built` if it is a finished draft to which witnesses may have
been added. No step leads to more attributes than a transaction can hold
(`Built.length_attributes`).
-/

namespace LedgerClient.Ledger

/-- Attributes are added at the end, if there is room for all of them. -/
theorem addAttributes_eq_ok_iff {attributes more attributes' : List Attribute} :
    addAttributes attributes more = .ok attributes' ↔
      attributes.length + more.length ≤ Limits.maxAttributes ∧
        attributes ++ more = attributes' := by
  rw [addAttributes]
  split
  · exact iff_of_false nofun fun h => by omega
  · exact ⟨fun h => ⟨by omega, Except.ok.inj h⟩, fun h => congrArg _ h.2⟩

namespace Invocation

/-- The builder adds attributes so and leaves the rest of the invocation as it is. -/
theorem withAttributes_eq_ok_iff {t t' : Invocation} {more : List Attribute} :
    t.withAttributes more = .ok t' ↔
      t.attributes.length + more.length ≤ Limits.maxAttributes ∧
        { t with attributes := t.attributes ++ more } = t' := by
  rw [withAttributes, Except.bind_eq_ok_iff]
  constructor
  · rintro ⟨attributes, h, ⟨⟩⟩
    obtain ⟨hlength, rfl⟩ := addAttributes_eq_ok_iff.1 h
    exact ⟨hlength, rfl⟩
  · rintro ⟨hlength, rfl⟩
    exact ⟨_, addAttributes_eq_ok_iff.2 ⟨hlength, rfl⟩, rfl⟩

/-- Witnesses are put into their places, if they can be, and the rest is left as it is. -/
theorem addWitnesses_eq_ok_iff {t t' : Invocation} {batch : List Witness} :
    t.addWitnesses batch = .ok t' ↔
      ∃ witnesses, Witness.insert t.witnesses batch = .ok witnesses ∧
        { t with witnesses := witnesses } = t' := by
  rw [addWitnesses, Except.bind_eq_ok_iff]
  exact exists_congr fun _ => and_congr_right fun _ => ⟨Except.ok.inj, congrArg _⟩

/-- An invocation is finished as it is, if it has a script. -/
theorem finish_eq_ok_iff {t t' : Invocation} : t.finish = .ok t' ↔ t.script ≠ [] ∧ t = t' := by
  rw [finish]
  split
  · next hempty => exact iff_of_false nofun fun h => h.1 (List.isEmpty_iff.1 hempty)
  · next hempty =>
    exact ⟨fun h => ⟨fun hnil => hempty (List.isEmpty_iff.2 hnil), Except.ok.inj h⟩,
      fun h => congrArg _ h.2⟩

/-! ## Steps of building -/

/-- What the steps of building make of the new invocation. -/
inductive Draft : Invocation → Prop
  | new : Draft .new
  | version {t} (version : UInt8) : Draft t → Draft { t with version := version }
  | script {t} (script : Bytes) : Draft t → Draft { t with script := script }
  | gas {t} (gas : Fixed8) : Draft t → Draft { t with gas := gas }
  | attributes {t t' more} : Draft t → t.withAttributes more = .ok t' → Draft t'
  | inputs {t} (more : List Input) : Draft t → Draft (t.withInputs more)
  | outputs {t} (more : List Output) : Draft t → Draft (t.withOutputs more)
  | witnesses {t t' batch} : Draft t → t.addWitnesses batch = .ok t' → Draft t'

/-- A finished draft, and any witnesses added to it. -/
inductive Built : Invocation → Prop
  | finish {t t'} : Draft t → t.finish = .ok t' → Built t'
  | witnesses {t t' batch} : Built t → t.addWitnesses batch = .ok t' → Built t'

/-- A draft has no more attributes than are allowed. -/
theorem Draft.length_attributes {t : Invocation} (h : Draft t) :
    t.attributes.length ≤ Limits.maxAttributes := by
  induction h with
  | new => exact Nat.zero_le _
  | version _ _ ih => exact ih
  | script _ _ ih => exact ih
  | gas _ _ ih => exact ih
  | attributes _ hmore _ =>
    obtain ⟨hlength, rfl⟩ := withAttributes_eq_ok_iff.1 hmore
    rwa [List.length_append]
  | inputs _ _ ih => exact ih
  | outputs _ _ ih => exact ih
  | witnesses _ hbatch ih =>
    obtain ⟨_, -, rfl⟩ := addWitnesses_eq_ok_iff.1 hbatch
    exact ih

/-- However an invocation was built, its attributes are few enough. -/
theorem Built.length_attributes {t : Invocation} (h : Built t) :
    t.attributes.length ≤ Limits.maxAttributes := by
  induction h with
  | finish hdraft hfinish =>
    obtain ⟨-, rfl⟩ := finish_eq_ok_iff.1 hfinish
    exact hdraft.length_attributes
  | witnesses _ hbatch ih =>
    obtain ⟨_, -, rfl⟩ := addWitnesses_eq_ok_iff.1 hbatch
    exact ih

end Invocation

end LedgerClient.Ledger
