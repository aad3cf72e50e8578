import LedgerClient.Contract.Deployment
import LedgerClient.Json.Forms
import LedgerClient.Ledger.Inspection

/-!
# Inspecting contracts

The kinds of arguments are shown by their tags and the kind of the result by its name.
-/

namespace LedgerClient.Contract

open Inspect (the)

instance : Inspect EntryPoint where
  inspect p := .object [the "parameters" (p.parameters.map fun kind => Inspect.inspect kind.tag),
    the "return" p.result.name, the "storage" p.capabilities.storage,
    the "dynamic" p.capabilities.dynamicCalls, the "payable" p.capabilities.payable]

instance : Inspect Description := ⟨Description.toJson⟩

/-- A deployment with the script that makes it, unless that is too long. -/
def Deployment.inspect (d : Deployment) : Except Error Json :=
  return .object [the "script" d.script, the "function" d.entryPoint,
    the "description" d.description, the "contract_hash" d.contractHash,
    the "deployment_hash" (← d.deploymentHash), the "hex" (← d.encode)]

end LedgerClient.Contract
