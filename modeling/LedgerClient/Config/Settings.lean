import LedgerClient.Config.Network
import LedgerClient.Json.Forms
import LedgerClient.Text.Blank
import LedgerClient.Toml.Reading

/-!
# Settings

What a client can be told: the network, the address of a node, how often to ask it and how long to
bear its failures, the version of addresses, and in which order outputs are spent. Each setting has
a default. Settings are read from TOML, where they are checked, and from JSON, where they are not.
-/

namespace LedgerClient.Config

open Toml (Node Members)
open Wallet (Strategy)

/-- The settings of a client. -/
structure Settings where
  network : Network
  rpcUrl : String
  /-- The time between two questions, in milliseconds. -/
  pollInterval : UInt64
  /-- How many failures in a row end the questions; without it none do. -/
  maxPollFailures : Option UInt32
  addressVersion : UInt8
  strategy : Strategy
  deriving DecidableEq

/-- Why settings cannot be used. -/
inductive Error where
  /-- The file cannot be read, for a reason of the system's. -/
  | read (path reason : String)
  /-- The text is no TOML or gives a setting no value of its kind. -/
  | text
  /-- The interval is zero. -/
  | noInterval
  /-- The address of the node is blank. -/
  | noUrl
  deriving DecidableEq, Repr

/-- The wording of an error; of a text that cannot be read no more is said. -/
def Error.message : Error → String
  | .read path reason => "failed to read configuration file " ++ path ++ ": " ++ reason
  | .text => "invalid configuration"
  | .noInterval =>
    "invalid configuration value for poll_interval_ms: must be greater than zero"
  | .noUrl => "invalid configuration value for rpc_url: must not be empty"

namespace Settings

/-- The settings of a client that is told nothing. -/
def default : Settings :=
  ⟨.test, Network.test.defaultUrl, 1000, none, Limits.addressVersion, .asGiven⟩

/-- The settings, if the interval is not zero and the address not blank. -/
def validate (s : Settings) : Except Error Settings :=
  if s.pollInterval = 0 then .error .noInterval
  else if (Text.trimChars s.rpcUrl.toList).isEmpty then .error .noUrl
  else .ok s

/-! ## From TOML -/

/-- The text that a value is. -/
def nodeText? : Node → Option String
  | .string s => some s
  | _ => none

/-- The natural number that a value is, if it is not above a bound. -/
def nodeNatural? (high : Nat) : Node → Option Nat
  | .integer n => if 0 ≤ n ∧ n ≤ high then some n.toNat else none
  | _ => none

/-- Whether a value holds nothing. -/
def nodeIsEmpty : Node → Bool
  | .array [] => true
  | .table _ [] => true
  | _ => false

/-- A choice by name: the name itself, or a table with the name before an empty value. -/
def nodeChoice? {α : Type} (ofName? : String → Option α) : Node → Option α
  | .string name => ofName? name
  | .table _ [(name, content)] => if nodeIsEmpty content then ofName? name else none
  | _ => none

/-- The setting under a key, or its default. -/
def setting {α : Type} (ms : Members) (key : String) (default : α) (read? : Node → Option α) :
    Option α :=
  match ms.get? key with
  | none => some default
  | some node => read? node

/-- The settings in the members of a text, unchecked. -/
def ofMembers? (ms : Members) : Option Settings := do
  return {
    network := ← setting ms "network" default.network (nodeChoice? Network.ofName?)
    rpcUrl := ← setting ms "rpc_url" default.rpcUrl nodeText?
    pollInterval := ← setting ms "poll_interval_ms" default.pollInterval fun node =>
      (nodeNatural? (UInt64.size - 1) node).map UInt64.ofNat
    maxPollFailures := ← setting ms "max_poll_failures" default.maxPollFailures fun node =>
      (nodeNatural? (UInt32.size - 1) node).map fun n => some (UInt32.ofNat n)
    addressVersion := ← setting ms "address_version" default.addressVersion fun node =>
      (nodeNatural? 255 node).map UInt8.ofNat
    strategy := ← setting ms "input_strategy" default.strategy (nodeChoice? Strategy.ofName?) }

/-- The settings in a text. -/
def parse (s : String) : Except Error Settings :=
  match (Toml.parse? s).bind ofMembers? with
  | none => .error .text
  | some settings => settings.validate

/-! ## In JSON -/

/-- Settings as a record. -/
def toJson (s : Settings) : Json :=
  .object [
    ("network", .string s.network.name),
    ("rpc_url", .string s.rpcUrl),
    ("poll_interval_ms", .integer s.pollInterval.toNat),
    ("max_poll_failures",
      match s.maxPollFailures with
      | none => .null
      | some n => .integer n.toNat),
    ("address_version", .integer s.addressVersion.toNat),
    ("input_strategy", s.strategy.toJson)]

/-- The settings that a record gives, unchecked. -/
def ofJson? (v : Json) : Option Settings := do
  match ← Json.record? [["network"], ["rpc_url"], ["poll_interval_ms"], ["max_poll_failures"],
      ["address_version"], ["input_strategy"]] v with
  | [network, rpcUrl, pollInterval, maxPollFailures, addressVersion, strategy] =>
    return {
      network := ← Json.optional? default.network (Json.choice? Network.ofName?) network
      rpcUrl := ← Json.optional? default.rpcUrl Json.text? rpcUrl
      pollInterval := ← Json.optional? default.pollInterval
        (fun x => (Json.natural? (UInt64.size - 1) x).map UInt64.ofNat) pollInterval
      maxPollFailures := ← Json.optional? default.maxPollFailures
        (Json.nullable? fun x => (Json.natural? (UInt32.size - 1) x).map UInt32.ofNat) maxPollFailures
      addressVersion := ← Json.optional? default.addressVersion
        (fun x => (Json.natural? 255 x).map UInt8.ofNat) addressVersion
      strategy := ← Json.optional? default.strategy Strategy.ofJson? strategy }
  | _ => none

end Settings

end LedgerClient.Config
