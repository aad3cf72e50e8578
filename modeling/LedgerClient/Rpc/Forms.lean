import LedgerClient.Rpc.Tracker
import LedgerClient.Rpc.Message

/-!
# Types with a JSON form

The types whose values are exchanged as JSON, with their form and the reader of it.
-/

namespace LedgerClient

/-- A type whose values are exchanged as JSON. -/
class Json.Form (α : Type) where
  toJson : α → Json
  /-- The value of which a JSON value is a form; a value may have several. -/
  ofJson? : Json → Option α

namespace Json

/-- The value that a text holds. -/
def readText? {α : Type} [Form α] (s : String) : Option α := (parse? s).bind Form.ofJson?

instance {size : Nat} : Form (Ledger.Digest size) := ⟨Ledger.Digest.toJson, Ledger.Digest.ofJson?⟩

instance : Form Ledger.Scope := ⟨Ledger.Scope.toJson, Ledger.Scope.ofJson?⟩

instance : Form Script.Outcome := ⟨Script.Outcome.toJson, Script.Outcome.ofJson?⟩

instance : Form Script.Kind := ⟨Script.Kind.toJson, Script.Kind.ofJson?⟩

instance : Form Contract.EntryPoint := ⟨Contract.EntryPoint.toJson, Contract.EntryPoint.ofJson?⟩

instance : Form Contract.Description := ⟨Contract.Description.toJson, Contract.Description.ofJson?⟩

instance : Form Wallet.Strategy := ⟨Wallet.Strategy.toJson, Wallet.Strategy.ofJson?⟩

instance : Form Config.Network := ⟨fun n => .string n.name, choice? Config.Network.ofName?⟩

instance : Form Config.Settings := ⟨Config.Settings.toJson, Config.Settings.ofJson?⟩

instance : Form Rpc.Request := ⟨Rpc.Request.toJson, Rpc.Request.ofJson?⟩

instance : Form Rpc.Response := ⟨Rpc.Response.toJson, Rpc.Response.ofJson?⟩

instance : Form Rpc.ApplicationLog := ⟨Rpc.ApplicationLog.toJson, Rpc.ApplicationLog.ofJson?⟩

end Json

end LedgerClient
