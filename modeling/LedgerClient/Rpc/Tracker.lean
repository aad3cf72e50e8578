import LedgerClient.Config.Settings
import LedgerClient.Rpc.Node

/-!
# Waiting for a confirmation

A tracker asks a node at regular intervals until it has what is recorded for a transaction. Each
poll asks for the number of blocks first and for the log only if the chain has grown since the node
last said that it does not know the transaction. A poll fails if one of its answers does; with a
limit on failures in a row, the last of them ends the waiting.

The tracker is a function of the answers: `Tracker.step` takes those to one poll and either goes on
or ends with an event. `Node.watch` runs it against a node.
-/

namespace LedgerClient.Rpc

open Ledger (Hash256)

/-- How often a node is asked and how many failures are borne. -/
structure PollPolicy where
  /-- The time between two polls, in microseconds. -/
  interval : Nat
  /-- How many failures in a row end the waiting; without it none do. -/
  maxFailures : Option UInt32
  deriving DecidableEq, Repr

namespace PollPolicy

/-- The shortest time between two polls, in microseconds. -/
def minInterval : Nat := 1000

/-- Once a second, whatever fails. -/
def default : PollPolicy := ⟨1000000, none⟩

/-- What settings ask for. -/
def ofSettings (s : Config.Settings) : PollPolicy := ⟨s.pollInterval.toNat * 1000, s.maxPollFailures⟩

/-- The time that passes between two polls, in microseconds. -/
def period (p : PollPolicy) : Nat := max p.interval minInterval

/-- The number of polls up to and including a time in microseconds; the first is at zero. -/
def pollsUpTo (p : PollPolicy) (time : Nat) : Nat := time / p.period + 1

/-- The number of polls before a time in microseconds. -/
def pollsBefore (p : PollPolicy) (time : Nat) : Nat := (time + p.period - 1) / p.period

end PollPolicy

/-- What ends the waiting: the log, or the failure of the last poll. -/
abbrev Event := Except Failure ApplicationLog

/-- The answers to one poll. The second counts only if it is asked for. -/
structure Answers where
  height : Except Failure UInt32
  log : Except Failure (Option ApplicationLog)

/-- What is remembered between two polls. -/
structure Tracker where
  /-- The height at which the node last said that it does not know the transaction. -/
  lastHeight : Option UInt32
  /-- The number of polls that failed since one did not. -/
  failures : Nat
  deriving DecidableEq, Repr

namespace Tracker

/-- What is remembered before the first poll. -/
def new : Tracker := ⟨none, 0⟩

/-- Whether the chain has grown. -/
def hasGrown (t : Tracker) (height : UInt32) : Bool :=
  match t.lastHeight with
  | none => true
  | some last => last < height

/-- Whether a poll asks for the log. -/
def asksForLog (t : Tracker) : Except Failure UInt32 → Bool
  | .ok height => t.hasGrown height
  | .error _ => false

/-- What a poll comes to. -/
inductive Poll where
  /-- The log is there. -/
  | found (log : ApplicationLog)
  /-- There is nothing new. -/
  | nothing
  /-- The node does not know the transaction at this height. -/
  | unknown (height : UInt32)
  /-- An answer failed. -/
  | failed (failure : Failure)

/-- What the answers to a poll come to. -/
def poll (t : Tracker) (a : Answers) : Poll :=
  match a.height with
  | .error failure => .failed failure
  | .ok height =>
    if t.hasGrown height then
      match a.log with
      | .error failure => .failed failure
      | .ok none => .unknown height
      | .ok (some log) => .found log
    else .nothing

/-- How the waiting stands after a poll. -/
inductive Step where
  | goesOn (t : Tracker)
  | ends (event : Event)

/-- Whether so many failures in a row end the waiting. -/
def isTooMany (maxFailures : Option UInt32) (failures : Nat) : Bool :=
  match maxFailures with
  | none => false
  | some limit => limit.toNat ≤ failures

/-- How the waiting stands after what a poll came to. -/
def after (maxFailures : Option UInt32) (t : Tracker) : Poll → Step
  | .found log => .ends (.ok log)
  | .nothing => .goesOn { t with failures := 0 }
  | .unknown height => .goesOn ⟨some height, 0⟩
  | .failed failure =>
    if isTooMany maxFailures (t.failures + 1) then .ends (.error failure)
    else .goesOn { t with failures := t.failures + 1 }

/-- How the waiting stands after the answers to one more poll. -/
def step (maxFailures : Option UInt32) (t : Tracker) (a : Answers) : Step :=
  t.after maxFailures (t.poll a)

end Tracker

namespace Node

variable {σ : Type}

/-- The answers of a node to a poll; the log is asked for only where the tracker wants it. -/
def answers (node : Node σ) (transaction : Hash256) (t : Tracker) (s : σ) : Answers × σ :=
  let (height, s) := node.blockCount s
  if t.asksForLog height then
    let (log, s) := node.applicationLog transaction s
    (⟨height, log⟩, s)
  else (⟨height, .ok none⟩, s)

/-- The event that ends the waiting within a number of polls, if one does, and the state of the node
then. Between two polls a period passes. -/
def watch (node : Node σ) (transaction : Hash256) (policy : PollPolicy) :
    (polls : Nat) → Tracker → σ → Option Event × σ
  | 0, _, s => (none, s)
  | polls + 1, t, s =>
    let (a, s) := node.answers transaction t s
    match t.step policy.maxFailures a with
    | .ends event => (some event, s)
    | .goesOn t => watch node transaction policy polls t (node.wait policy.period s)

end Node

end LedgerClient.Rpc
