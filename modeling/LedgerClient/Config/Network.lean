import LedgerClient.Limits
import LedgerClient.Text.Case

/-!
# Networks

The networks that a client can talk to, with a public node of each. In settings a network is written
in one way; a user may type it in several.
-/

namespace LedgerClient.Config

/-- A network of nodes that share a ledger. -/
inductive Network where
  /-- The network with assets of value. -/
  | main
  /-- The network for trials. -/
  | test
  /-- A network of one's own. -/
  | personal
  deriving DecidableEq, Repr, Inhabited

namespace Network

/-- The name of a network. -/
def name : Network → String
  | main => "mainnet"
  | test => "testnet"
  | personal => "private"

/-- The network with the given name. -/
def ofName? (s : String) : Option Network :=
  [main, test, personal].find? fun network => network.name == s

/-- A text that names no network. -/
structure UnknownName where
  text : String
  deriving DecidableEq, Repr

/-- The wording of the error. -/
def UnknownName.message (e : UnknownName) : String := "Unknown network type: " ++ e.text

/-- The network that a user means, whatever the case of the letters. -/
def parse (s : String) : Except UnknownName Network :=
  match Text.toLowerAscii s with
  | "mainnet" => .ok main
  | "main" => .ok main
  | "testnet" => .ok test
  | "test" => .ok test
  | "private" => .ok personal
  | "privnet" => .ok personal
  | _ => .error ⟨s⟩

/-- The address of a public node. -/
def defaultUrl : Network → String
  | main => "http://seed1.ngd.network:10332"
  | test => "http://seed1t.neo.org:20332"
  | personal => "http://localhost:10332"

/-- The first byte of addresses on a network, which is the same on all. -/
def addressVersion (_ : Network) : UInt8 := Limits.addressVersion

end Network

end LedgerClient.Config
