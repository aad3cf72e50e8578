import LedgerClient.Json.Reading
import LedgerClient.Json.Record
import LedgerClient.Rpc.Failure

/-!
# Requests and responses

A request names a method and gives its parameters; the response to it carries its number and either
a result or an error. A result or error that is null is as good as none.
-/

namespace LedgerClient.Rpc

/-! ## Requests -/

/-- A question to a node. -/
structure Request where
  id : Json
  version : String
  method : String
  params : List Json

namespace Request

/-- The request with a number. -/
def numbered (id : Nat) (method : String) (params : List Json) : Request :=
  ⟨.integer id, "2.0", method, params⟩

/-- A request as a record. -/
def toJson (r : Request) : Json :=
  .object [
    ("id", r.id),
    ("jsonrpc", .string r.version),
    ("method", .string r.method),
    ("params", .array r.params)]

/-- The request that a record gives. -/
def ofJson? (v : Json) : Option Request := do
  match ← Json.record? [["id"], ["jsonrpc"], ["method"], ["params"]] v with
  | [id, version, method, params] =>
    return {
      id := ← Json.required? Json.settle? id
      version := ← Json.required? Json.text? version
      method := ← Json.required? Json.text? method
      params := ← Json.optional? [] (Json.list? Json.settle?) params }
  | _ => none

end Request

/-! ## Responses -/

/-- The error that a node answers with. -/
structure Refusal where
  code : Int
  message : String
  data : Option Json

namespace Refusal

/-- An error as a record. -/
def toJson (r : Refusal) : Json :=
  Json.present [
    ("code", some (.integer r.code)),
    ("message", some (.string r.message)),
    ("data", r.data)]

/-- The error that a record gives. -/
def ofJson? (v : Json) : Option Refusal := do
  match ← Json.record? [["code"], ["message"], ["data"]] v with
  | [code, message, data] =>
    return {
      code := ← Json.required? (Json.integerIn? Int32.minValue.toInt Int32.maxValue.toInt) code
      message := ← Json.required? Json.text? message
      data := ← Json.optional? none (Json.nullable? Json.settle?) data }
  | _ => none

end Refusal

/-- The answer of a node. -/
structure Response where
  id : Json
  version : String
  result : Option Json
  refusal : Option Refusal

namespace Response

/-- The fields of a response. -/
def fields : List (List String) := [["id"], ["jsonrpc"], ["result"], ["error"]]

/-- A response as a record. -/
def toJson (r : Response) : Json :=
  Json.present [
    ("id", some r.id),
    ("jsonrpc", some (.string r.version)),
    ("result", r.result),
    ("error", r.refusal.map Refusal.toJson)]

/-- The response that a record gives. -/
def ofJson? (v : Json) : Option Response := do
  match ← Json.record? fields v with
  | [id, version, result, refusal] =>
    return {
      id := ← Json.optional? .null Json.settle? id
      version := ← Json.optional? "" Json.text? version
      result := ← Json.optional? none (Json.nullable? Json.settle?) result
      refusal := ← Json.optional? none (Json.nullable? Refusal.ofJson?) refusal }
  | _ => none

end Response

end LedgerClient.Rpc
