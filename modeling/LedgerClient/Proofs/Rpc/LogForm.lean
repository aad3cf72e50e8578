import LedgerClient.Proofs.Amount.Printing
import LedgerClient.Proofs.Json.Record
import LedgerClient.Proofs.Ledger.HashText
import LedgerClient.Proofs.Script.Reports
import LedgerClient.Rpc.ApplicationLog

/-!
# Application logs in JSON

What a node recorded is read back from its JSON form as it was (`ApplicationLog.logs_survive_json`).
The laws of the forms (`Json.Lawful`) go up from the parts of a log: hashes, outcomes and amounts
are texts that are read back, the values that the node shows are JSON values, and a record has the
laws because its fields have them. What the form of a record is and what is found in it is one lemma
for each record (`StackItem.record`, `Notification.record`, `Execution.record`,
`ApplicationLog.record`).
-/

namespace LedgerClient

/-! ## Texts in a log -/

/-- Hashes are texts. -/
theorem Ledger.Digest.lawful {size : Nat} :
    Json.Lawful (toJson : Digest size → Json) ofJson? fun _ => True :=
  Json.lawful_of_text ofJson?_toJson

/-- Outcomes are texts. -/
theorem Script.Outcome.lawful : Json.Lawful toJson ofJson? fun _ => True := by
  refine Json.lawful_of_text fun o => ?_
  rw [ofJson?, parse_toText]
  rfl

/-- Amounts are texts. -/
theorem Decimal.lawful : Json.Lawful toJson ofJson? fun _ => True := by
  refine Json.lawful_of_text fun d => ?_
  rw [ofJson?, parse_toText]
  rfl

namespace Rpc

open Ledger (Digest)
open Script (Outcome)

/-- Triggers are chosen by their names. -/
theorem Trigger.lawful :
    Json.Lawful (fun t : Trigger => .string t.name) (Json.choice? ofName?) fun _ => True := by
  refine Json.lawful_of_text fun t => ?_
  rw [Json.choice?]
  cases t <;> decide

/-! ## Records of a log -/

/-- What the node shows of the item is a JSON value. -/
def StackItem.Whole (i : StackItem) : Prop := i.value.Whole

/-- What the node shows of the state is a JSON value. -/
def Notification.Whole (n : Notification) : Prop := n.state.Whole

/-- What the node shows of the run is made of JSON values. -/
structure Execution.Whole (e : Execution) : Prop where
  stack : ∀ i ∈ e.stack, i.Whole
  notifications : ∀ n ∈ e.notifications, n.Whole

/-- What the node shows of the runs is made of JSON values. -/
def ApplicationLog.Whole (log : ApplicationLog) : Prop := ∀ e ∈ log.executions, e.Whole

/-- The form of an item is whole, and its kind and its value are found in it. -/
theorem StackItem.record {i : StackItem} (h : i.Whole) :
    i.toJson.Whole ∧ Json.record? [["type"], ["value"]] i.toJson =
      some [some (.string i.kind), some i.value] :=
  Json.record_present [("type", some _), ("value", some _)]
    (by simp [Json.Named]) (by decide) (by simpa using ⟨.string _, h⟩)

/-- An item is read back, and what it was read from may have said nothing of its value. -/
theorem StackItem.lawful : Json.Lawful toJson ofJson? Whole where
  whole h := (StackItem.record h).1
  read {i} h := by
    have hvalue : Json.settle? i.value = some i.value := Json.lawful_settle?.read h
    rw [ofJson?, (StackItem.record h).2]
    simp only [Json.required?_some, Json.optional?_some, Json.text?, hvalue, Option.bind_eq_bind,
      Option.bind_some, Option.pure_def]
  valid h := by
    obtain ⟨members, -, h⟩ := Option.bind_eq_some_iff.1 h
    split at h
    · obtain ⟨kind, -, h⟩ := Option.bind_eq_some_iff.1 h
      obtain ⟨value, hvalue, h⟩ := Option.bind_eq_some_iff.1 h
      cases h
      exact Json.lawful_settle?.valid_of_optional? .null hvalue
    · cases h

/-- The form of a notification is whole, and its contract and its state are found in it. -/
theorem Notification.record {n : Notification} (h : n.Whole) :
    n.toJson.Whole ∧ Json.record? [["contract"], ["state"]] n.toJson =
      some [some (Digest.toJson n.contract), some n.state.toJson] :=
  Json.record_present [("contract", some _), ("state", some _)]
    (by simp [Json.Named]) (by decide) (by simpa using ⟨.string _, StackItem.lawful.whole h⟩)

/-- A notification is read back. -/
theorem Notification.lawful : Json.Lawful toJson ofJson? Whole where
  whole h := (Notification.record h).1
  read {n} h := by
    have hcontract : Digest.ofJson? (Digest.toJson n.contract) = some n.contract :=
      Digest.lawful.read trivial
    have hstate : StackItem.ofJson? n.state.toJson = some n.state := StackItem.lawful.read h
    rw [ofJson?, (Notification.record h).2]
    simp only [Json.required?_some, hcontract, hstate, Option.bind_eq_bind, Option.bind_some,
      Option.pure_def]
  valid h := by
    obtain ⟨members, -, h⟩ := Option.bind_eq_some_iff.1 h
    split at h
    · obtain ⟨contract, -, h⟩ := Option.bind_eq_some_iff.1 h
      obtain ⟨state, hstate, h⟩ := Option.bind_eq_some_iff.1 h
      cases h
      exact StackItem.lawful.valid_of_required? hstate
    · cases h

/-- The form of a run is whole, and in it each field is found, the contract only if there is one. -/
theorem Execution.record {e : Execution} (h : e.Whole) :
    e.toJson.Whole ∧ Json.record? [["trigger"], ["contract"], ["vmstate"],
      ["gas_consumed", "gasconsumed"], ["stack"], ["notifications"]] e.toJson =
        some [some (.string e.trigger.name), e.contract.map Digest.toJson, some e.outcome.toJson,
          some e.gasConsumed.toJson, some (.array (e.stack.map StackItem.toJson)),
          some (.array (e.notifications.map Notification.toJson))] := by
  have hcontract : ∀ v ∈ e.contract.map Digest.toJson, v.Whole := by
    intro v hv
    obtain ⟨c, -, rfl⟩ := Option.map_eq_some_iff.1 hv
    exact .string _
  have hstack := StackItem.lawful.list.whole h.stack
  have hnotifications := Notification.lawful.list.whole h.notifications
  refine Json.record_present [("trigger", some _), ("contract", _), ("vmstate", some _),
    ("gas_consumed", some _), ("stack", some _), ("notifications", some _)]
    (by simp [Json.Named]) (by decide) ?_
  simp only [List.forall_mem_cons, Option.mem_some_iff, forall_eq']
  exact ⟨.string _, hcontract, .string _, .string _, hstack, hnotifications, nofun⟩

/-- A run is read back. Lists that were left out are read as empty, and these are whole too. -/
theorem Execution.lawful : Json.Lawful toJson ofJson? Whole where
  whole h := (Execution.record h).1
  read {e} h := by
    have htrigger : Json.choice? Trigger.ofName? (.string e.trigger.name) = some e.trigger :=
      Trigger.lawful.read trivial
    have hcontract : Json.optional? none (Json.nullable? Digest.ofJson?)
        (e.contract.map Digest.toJson) = some e.contract := by
      cases e.contract with
      | none => rfl
      | some c => exact congrArg (Option.map some) c.ofJson?_toJson
    have houtcome : Outcome.ofJson? e.outcome.toJson = some e.outcome := Outcome.lawful.read trivial
    have hgas : Decimal.ofJson? e.gasConsumed.toJson = some e.gasConsumed :=
      Decimal.lawful.read trivial
    have hstack := StackItem.lawful.list.read h.stack
    have hnotifications := Notification.lawful.list.read h.notifications
    rw [ofJson?, (Execution.record h).2]
    simp only [Json.required?_some, Json.optional?_some, htrigger, hcontract, houtcome, hgas, hstack,
      hnotifications, Option.bind_eq_bind, Option.bind_some, Option.pure_def]
  valid h := by
    obtain ⟨members, -, h⟩ := Option.bind_eq_some_iff.1 h
    split at h
    · obtain ⟨trigger, -, h⟩ := Option.bind_eq_some_iff.1 h
      obtain ⟨contract, -, h⟩ := Option.bind_eq_some_iff.1 h
      obtain ⟨outcome, -, h⟩ := Option.bind_eq_some_iff.1 h
      obtain ⟨gas, -, h⟩ := Option.bind_eq_some_iff.1 h
      obtain ⟨stack, hstack, h⟩ := Option.bind_eq_some_iff.1 h
      obtain ⟨notifications, hnotifications, h⟩ := Option.bind_eq_some_iff.1 h
      cases h
      exact ⟨StackItem.lawful.list.valid_of_optional? (List.forall_mem_nil _) hstack,
        Notification.lawful.list.valid_of_optional? (List.forall_mem_nil _) hnotifications⟩
    · cases h

/-- The form of a log is whole, and the transaction and the runs are found in it. -/
theorem ApplicationLog.record {log : ApplicationLog} (h : log.Whole) :
    log.toJson.Whole ∧ Json.record? [["txid"], ["executions"]] log.toJson =
      some [some (Digest.toJson log.transaction),
        some (.array (log.executions.map Execution.toJson))] :=
  Json.record_present [("txid", some _), ("executions", some _)]
    (by simp [Json.Named]) (by decide) (by simpa using ⟨.string _, Execution.lawful.list.whole h⟩)

/-- A log is read back. -/
theorem ApplicationLog.lawful : Json.Lawful toJson ofJson? Whole where
  whole h := (ApplicationLog.record h).1
  read {log} h := by
    have htransaction : Digest.ofJson? (Digest.toJson log.transaction) = some log.transaction :=
      Digest.lawful.read trivial
    have hexecutions := Execution.lawful.list.read h
    rw [ofJson?, (ApplicationLog.record h).2]
    simp only [Json.required?_some, Json.optional?_some, htransaction, hexecutions,
      Option.bind_eq_bind, Option.bind_some, Option.pure_def]
  valid h := by
    obtain ⟨members, -, h⟩ := Option.bind_eq_some_iff.1 h
    split at h
    · obtain ⟨transaction, -, h⟩ := Option.bind_eq_some_iff.1 h
      obtain ⟨executions, hexecutions, h⟩ := Option.bind_eq_some_iff.1 h
      cases h
      exact Execution.lawful.list.valid_of_optional? (List.forall_mem_nil _) hexecutions
    · cases h

namespace ApplicationLog

/-- A log survives its JSON form, however many runs it has and whatever the node shows in them, as
long as that is JSON. The form is a JSON value itself, and the log that is read from it is the one
that was written: with all lists in their order, and with each amount at its own scale. So whether
the transaction was successful is told the same way afterwards. Every log that is read from anything
is such a log. -/
theorem logs_survive_json :
    (∀ log : ApplicationLog, log.Whole →
      log.toJson.Whole ∧ ofJson? log.toJson = some log ∧
        ∀ back, ofJson? log.toJson = some back → back.isSuccessful = log.isSuccessful) ∧
    ∀ (v : Json) (log : ApplicationLog), ofJson? v = some log → log.Whole := by
  refine ⟨fun log h => ⟨lawful.whole h, lawful.read h, fun back hback => ?_⟩, fun v log h => ?_⟩
  · rw [lawful.read h] at hback
    cases hback
    rfl
  · exact lawful.valid h

/-- A log of two runs, of which the second has no contract, stands at a breakpoint and raised an
event with values inside of values. -/
def sampleLog : ApplicationLog where
  transaction := ⟨List.replicate 32 0xab, rfl⟩
  executions := [
    { trigger := .verification
      contract := some ⟨List.replicate 20 0x0c, rfl⟩
      outcome := ⟨true, false, false⟩
      gasConsumed := ⟨10, 2, by decide, by decide⟩
      stack := [⟨"Boolean", .bool true⟩, ⟨"Any", .null⟩]
      notifications := [] },
    { trigger := .application
      contract := none
      outcome := ⟨true, false, true⟩
      gasConsumed := ⟨-1, 28, by decide, by decide⟩
      stack := []
      notifications := [⟨⟨List.replicate 20 0x0d, rfl⟩, "Array",
        .array [.object [("type", .string "Integer"), ("value", .integer 1)], .array []]⟩] }]

/-- The log with nested values and amounts of different scales is one of JSON values, and it
survives. -/
theorem logs_survive_json_sample :
    sampleLog.Whole ∧ ofJson? sampleLog.toJson = some sampleLog ∧
      (ofJson? sampleLog.toJson).map isSuccessful = some true := by
  have hitem : (Json.object [("type", .string "Integer"), ("value", .integer 1)]).Whole :=
    .object (by decide) (by simp [Json.Whole.string, Json.Whole.integer])
  have hstate : (Json.array [.object [("type", .string "Integer"), ("value", .integer 1)],
      .array []]).Whole := .array (by simp [hitem, Json.Whole.array])
  have hwhole : sampleLog.Whole := by
    refine List.forall_mem_cons.2 ⟨⟨?_, List.forall_mem_nil _⟩, List.forall_mem_singleton.2
      ⟨List.forall_mem_nil _, List.forall_mem_singleton.2 hstate⟩⟩
    exact List.forall_mem_cons.2 ⟨.bool true, List.forall_mem_singleton.2 .null⟩
  obtain ⟨hsurvives, -⟩ := logs_survive_json
  obtain ⟨-, hback, -⟩ := hsurvives sampleLog hwhole
  refine ⟨hwhole, hback, ?_⟩
  rw [hback]
  rfl

end ApplicationLog

end Rpc

end LedgerClient
