import LedgerClient.Rpc.Rehearsal
import LedgerClient.Wallet.Inspection

/-!
# Inspecting settings, logs and rehearsals
-/

namespace LedgerClient

open Inspect (the digits)

instance : Inspect Config.Settings where
  inspect s := .object [the "network" s.network.name, the "rpc_url" s.rpcUrl,
    ("poll_interval_ms", digits s.pollInterval.toNat), the "max_poll_failures" s.maxPollFailures,
    the "address_version" s.addressVersion, the "input_strategy" s.strategy]

instance : Inspect Rpc.PollPolicy where
  inspect p := .object [("interval_ms", digits (p.interval / 1000 : Nat)),
    the "max_failures" p.maxFailures]

/-- A log is shown with whether it tells of success. -/
instance : Inspect Rpc.ApplicationLog where
  inspect log := .object [the "log" log.toJson, the "successful" log.isSuccessful]

/-- The questions of a rehearsal in order, with their times in milliseconds; the times at which
transactions were relayed are shown if asked for. -/
def Rpc.Rehearsal.trace (r : Rpc.Rehearsal) (timed : Bool) : List (List Json) :=
  r.asked.reverse.map fun (time, q) =>
    let ms := Inspect.inspect (time / 1000)
    match q with
    | .blockCount => [.string "count", ms]
    | .applicationLog transaction => [.string "log", ms, Inspect.inspect transaction]
    | .relay hex => .string "send" :: ((if timed then [ms] else []) ++ [.string hex])

end LedgerClient
