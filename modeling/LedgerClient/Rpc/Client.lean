import LedgerClient.Config.Settings
import LedgerClient.Rpc.Endpoint
import LedgerClient.Rpc.Message
import LedgerClient.Rpc.Node

/-!
# Clients of one node

A client numbers its requests from one on and sends each to the node's address. What comes back is a
`Reply`: the request may not have gone out, the answer may have broken off, or there is a text,
which may be no response at all. The functions on replies say what each means for the question
asked. What the JSON library says of a text that is no response becomes part of the failure, and is
searched like any other message for the words of a node that does not know a transaction. So these
functions take it as an argument.
-/

namespace LedgerClient.Rpc

open Ledger (Hash256)

/-! ## Replies -/

/-- What comes back for a request. -/
inductive Reply where
  /-- The request did not go out. -/
  | unsent (reason : String)
  /-- The answer broke off. -/
  | unread (reason : String)
  /-- The text of the answer. -/
  | body (text : String)

namespace Reply

/-- The failure of a text that is no response. What follows the colon is a blank and what the JSON
library says of the text. -/
def malformed (detail : String) : Failure := ⟨Failure.parseCode, "Parse error:" ++ detail⟩

/-- Nothing is said of a text that is no response. -/
def unexplained : String → String := fun _ => ""

/-- The response in a reply, unless it reports an error. -/
def response (reply : Reply) (explain : String → String := unexplained) :
    Except Failure Response :=
  match reply with
  | .unsent reason => .error (.internal ("HTTP error: " ++ reason))
  | .unread reason => .error (.internal ("Failed to read response: " ++ reason))
  | .body text =>
    match (Json.parse? text).bind Response.ofJson? with
    | none => .error (malformed (explain text))
    | some r =>
      match r.refusal with
      | some refusal => .error ⟨refusal.code, refusal.message⟩
      | none => .ok r

/-- The result in the reply to a method. -/
def result (method : String) (reply : Reply) (explain : String → String := unexplained) :
    Except Failure Json := do
  match (← reply.response explain).result with
  | some v => .ok v
  | none => .error (.internal (method ++ ": no result returned"))

/-- A result read as a value. -/
def decode {α : Type} (method : String) (read? : Json → Option α) (v : Json) : Except Failure α :=
  match read? v with
  | some x => .ok x
  | none => .error (.internal (method ++ ": unexpected result:"))

/-- The name of the method that relays a transaction. -/
def relayMethod : String := "sendrawtransaction"

/-- The name of the method that tells the number of blocks. -/
def blockCountMethod : String := "getblockcount"

/-- The name of the method that tells what is recorded for a transaction. -/
def applicationLogMethod : String := "getapplicationlog"

/-- Whether a node accepted a transaction. -/
def accepted (reply : Reply) (explain : String → String) : Except Failure Bool := do
  decode relayMethod Json.bool? (← reply.result relayMethod explain)

/-- The number of blocks. -/
def blockCount (reply : Reply) (explain : String → String) : Except Failure UInt32 := do
  decode blockCountMethod (fun v => (Json.natural? (UInt32.size - 1) v).map UInt32.ofNat)
    (← reply.result blockCountMethod explain)

/-- What is recorded for a transaction; nothing if the node says that it does not know it. -/
def applicationLog (reply : Reply) (explain : String → String) :
    Except Failure (Option ApplicationLog) :=
  match reply.result applicationLogMethod explain with
  | .ok v => (decode applicationLogMethod ApplicationLog.ofJson? v).map some
  | .error failure => if failure.isUnknownItem then .ok none else .error failure

end Reply

/-! ## Clients -/

/-- A client of one node. -/
structure Client where
  endpoint : Endpoint
  /-- The number of the next request. -/
  nextId : Nat

namespace Client

/-- A client that has not asked anything. -/
def new (endpoint : Endpoint) : Client := ⟨endpoint, 1⟩

/-- A client of the node at an address. -/
def ofUrl (url : String) : Except Failure Client :=
  match Endpoint.parse url with
  | .ok endpoint => .ok (new endpoint)
  | .error e => .error (.internal ("invalid rpc url \x27" ++ url ++ "\x27: " ++ e.message))

/-- A client of the node that settings name. -/
def ofSettings (s : Config.Settings) : Except Failure Client := ofUrl s.rpcUrl

/-- The next request, for a method with parameters, and the client after it. -/
def ask (c : Client) (method : String) (params : List Json) : Request × Client :=
  (.numbered c.nextId method params, { c with nextId := c.nextId + 1 })

/-- The request that relays a transaction. -/
def askRelay (c : Client) (hex : String) : Request × Client :=
  c.ask Reply.relayMethod [.string hex]

/-- The request for the number of blocks. -/
def askBlockCount (c : Client) : Request × Client := c.ask Reply.blockCountMethod []

/-- The request for what is recorded for a transaction. -/
def askApplicationLog (c : Client) (transaction : Hash256) : Request × Client :=
  c.ask Reply.applicationLogMethod [.string transaction.toHex]

/-- A client as a node, over something that carries requests to an address and brings replies, with
what the JSON library says of texts that are no response. -/
def node {τ : Type} (explain : String → String) (send : Endpoint → Request → τ → Reply × τ)
    (wait : Nat → τ → τ) : Node (Client × τ) where
  relay hex := fun (c, t) =>
    let (request, next) := c.askRelay hex
    let (reply, t) := send c.endpoint request t
    (reply.accepted explain, (next, t))
  blockCount := fun (c, t) =>
    let (request, next) := c.askBlockCount
    let (reply, t) := send c.endpoint request t
    (reply.blockCount explain, (next, t))
  applicationLog transaction := fun (c, t) =>
    let (request, next) := c.askApplicationLog transaction
    let (reply, t) := send c.endpoint request t
    (reply.applicationLog explain, (next, t))
  wait microseconds := fun (c, t) => (c, wait microseconds t)

end Client

end LedgerClient.Rpc
