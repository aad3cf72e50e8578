import LedgerClient.Json.Forms

/-!
# Application logs

What a node recorded when it ran the script of a transaction: each run with its trigger, its
outcome, what it cost, what it left on the stack and which events it raised. A transaction was
successful if it was run at all and every run came to its end without an error.
-/

namespace LedgerClient.Rpc

open Ledger (Hash160 Hash256 Digest)
open Script (Outcome)

/-- Why a script was run. -/
inductive Trigger where
  | verification
  | verificationReturn
  | application
  | applicationReturn
  deriving DecidableEq, Repr, Inhabited

namespace Trigger

/-- The name of a trigger. -/
def name : Trigger → String
  | verification => "Verification"
  | verificationReturn => "VerificationR"
  | application => "Application"
  | applicationReturn => "ApplicationR"

/-- The trigger with the given name. -/
def ofName? (s : String) : Option Trigger :=
  [verification, verificationReturn, application, applicationReturn].find? fun t => t.name == s

end Trigger

/-- An item on the stack, as the node shows it. -/
structure StackItem where
  kind : String
  value : Json

/-- An event that a contract raised. -/
structure Notification where
  contract : Hash160
  state : StackItem

/-- One run of a script. -/
structure Execution where
  trigger : Trigger
  contract : Option Hash160
  outcome : Outcome
  gasConsumed : Decimal
  stack : List StackItem
  notifications : List Notification

/-- What a node recorded for a transaction. -/
structure ApplicationLog where
  transaction : Hash256
  executions : List Execution

namespace ApplicationLog

/-- Whether there are runs and all of them came to their end without an error. -/
def isSuccessful (log : ApplicationLog) : Bool :=
  ! log.executions.isEmpty &&
    log.executions.all fun e => e.outcome.halted && ! e.outcome.faulted

end ApplicationLog

/-! ## In JSON -/

/-- An item as a record. -/
def StackItem.toJson (i : StackItem) : Json :=
  .object [("type", .string i.kind), ("value", i.value)]

/-- The item that a record gives. -/
def StackItem.ofJson? (v : Json) : Option StackItem := do
  match ← Json.record? [["type"], ["value"]] v with
  | [kind, value] =>
    return {
      kind := ← Json.required? Json.text? kind
      value := ← Json.optional? .null Json.settle? value }
  | _ => none

/-- An event as a record. -/
def Notification.toJson (n : Notification) : Json :=
  .object [("contract", Digest.toJson n.contract), ("state", n.state.toJson)]

/-- The event that a record gives. -/
def Notification.ofJson? (v : Json) : Option Notification := do
  match ← Json.record? [["contract"], ["state"]] v with
  | [contract, state] =>
    return {
      contract := ← Json.required? Digest.ofJson? contract
      state := ← Json.required? StackItem.ofJson? state }
  | _ => none

/-- A run as a record. -/
def Execution.toJson (e : Execution) : Json :=
  Json.present [
    ("trigger", some (.string e.trigger.name)),
    ("contract", e.contract.map Digest.toJson),
    ("vmstate", some e.outcome.toJson),
    ("gas_consumed", some e.gasConsumed.toJson),
    ("stack", some (.array (e.stack.map StackItem.toJson))),
    ("notifications", some (.array (e.notifications.map Notification.toJson)))]

/-- The run that a record gives. -/
def Execution.ofJson? (v : Json) : Option Execution := do
  match ← Json.record? [["trigger"], ["contract"], ["vmstate"], ["gas_consumed", "gasconsumed"],
      ["stack"], ["notifications"]] v with
  | [trigger, contract, outcome, gasConsumed, stack, notifications] =>
    return {
      trigger := ← Json.required? (Json.choice? Trigger.ofName?) trigger
      contract := ← Json.optional? none (Json.nullable? Digest.ofJson?) contract
      outcome := ← Json.required? Outcome.ofJson? outcome
      gasConsumed := ← Json.required? Decimal.ofJson? gasConsumed
      stack := ← Json.optional? [] (Json.list? StackItem.ofJson?) stack
      notifications := ← Json.optional? [] (Json.list? Notification.ofJson?) notifications }
  | _ => none

/-- A log as a record. -/
def ApplicationLog.toJson (log : ApplicationLog) : Json :=
  .object [
    ("txid", Digest.toJson log.transaction),
    ("executions", .array (log.executions.map Execution.toJson))]

/-- The log that a record gives. -/
def ApplicationLog.ofJson? (v : Json) : Option ApplicationLog := do
  match ← Json.record? [["txid"], ["executions"]] v with
  | [transaction, executions] =>
    return {
      transaction := ← Json.required? Digest.ofJson? transaction
      executions := ← Json.optional? [] (Json.list? Execution.ofJson?) executions }
  | _ => none

end LedgerClient.Rpc
