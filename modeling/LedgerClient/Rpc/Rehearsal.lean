import LedgerClient.Rpc.Client
import LedgerClient.Rpc.Tracker

/-!
# Rehearsals

Nodes without a network, for trying out what is done with a node. The answers of a `Rehearsal` are
prepared, a list for each kind of question; the last answer of a list repeats, and a node without
prepared answers is offline. Answering takes no time. A rehearsal keeps a clock and records which
questions were asked at what time, so that the course of a wait can be looked at.

An `Exchange` does the same one level below: it has the replies to the requests of a client.
-/

namespace LedgerClient.Rpc

open Ledger (Hash256)

/-! ## Prepared answers -/

/-- A question to a node. -/
inductive Question where
  | blockCount
  | applicationLog (transaction : Hash256)
  | relay (hex : String)
  deriving DecidableEq

/-- A node with prepared answers. -/
structure Rehearsal where
  heights : List (Except Failure UInt32)
  logs : List (Except Failure (Option ApplicationLog))
  relays : List (Except Failure Bool)
  /-- The time on the clock, in microseconds. -/
  now : Nat
  /-- The questions so far and the times at which they were asked, last first. -/
  asked : List (Nat × Question)

namespace Rehearsal

/-- The failure of a node that cannot be reached. -/
def offline : Failure := .internal "offline"

/-- The next of the prepared answers, and those after it. -/
def next {α : Type} : List (Except Failure α) → Except Failure α × List (Except Failure α)
  | [] => (.error offline, [])
  | [answer] => (answer, [answer])
  | answer :: answers => (answer, answers)

/-- The rehearsal after one more question. -/
def record (r : Rehearsal) (q : Question) : Rehearsal := { r with asked := (r.now, q) :: r.asked }

/-- The rehearsal as a node. -/
def node : Node Rehearsal where
  relay hex := fun r =>
    let (answer, rest) := next r.relays
    (answer, { r with relays := rest }.record (.relay hex))
  blockCount := fun r =>
    let (answer, rest) := next r.heights
    (answer, { r with heights := rest }.record .blockCount)
  applicationLog transaction := fun r =>
    let (answer, rest) := next r.logs
    (answer, { r with logs := rest }.record (.applicationLog transaction))
  wait microseconds := fun r => { r with now := r.now + microseconds }

/-- The rehearsal with the clock at zero and nothing recorded. -/
def restart (r : Rehearsal) : Rehearsal := { r with now := 0, asked := [] }

/-- The event that ends the waiting for a transaction, if one does before so many polls are made;
the clock then stands at the last of them. -/
def watch (r : Rehearsal) (transaction : Hash256) (policy : PollPolicy) (polls : Nat) :
    Option Event × Rehearsal :=
  Node.watch node transaction policy polls .new r.restart

end Rehearsal

/-! ## Prepared replies -/

/-- Replies that are still to come, and the requests that were sent, last first. -/
structure Exchange where
  replies : List Reply
  sent : List (Endpoint × Request)

namespace Exchange

/-- Sends a request; without a reply that is left, it does not go out. -/
def send (endpoint : Endpoint) (request : Request) (x : Exchange) : Reply × Exchange :=
  let sent := (endpoint, request) :: x.sent
  match x.replies with
  | [] => (.unsent "no reply", ⟨[], sent⟩)
  | reply :: replies => (reply, ⟨replies, sent⟩)

/-- A client whose replies are prepared, as a node. Its failures leave out what the JSON library
says. -/
def node : Node (Client × Exchange) := Client.node Reply.unexplained send fun _ x => x

end Exchange

end LedgerClient.Rpc
