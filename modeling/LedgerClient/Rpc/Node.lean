import LedgerClient.Rpc.ApplicationLog
import LedgerClient.Rpc.Failure

/-!
# Nodes

What a client needs from a node: it relays transactions, tells the length of its chain, and tells
what it recorded for a transaction. Answering may change the state of whatever stands behind the
node, and so may the time that passes between two questions.
-/

namespace LedgerClient.Rpc

open Ledger (Hash256)

/-- A node with states of type `σ`. -/
structure Node (σ : Type) where
  /-- Relays a transaction, given in hexadecimal, and tells whether the node accepted it. -/
  relay : String → σ → Except Failure Bool × σ
  /-- The number of blocks in the chain. -/
  blockCount : σ → Except Failure UInt32 × σ
  /-- What is recorded for a transaction; nothing while the node does not know it. -/
  applicationLog : Hash256 → σ → Except Failure (Option ApplicationLog) × σ
  /-- The state after a number of microseconds. -/
  wait : Nat → σ → σ

end LedgerClient.Rpc
