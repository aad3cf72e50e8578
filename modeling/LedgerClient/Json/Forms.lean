import LedgerClient.Amount.DecimalText
import LedgerClient.Contract.Description
import LedgerClient.Contract.EntryPoint
import LedgerClient.Json.Record
import LedgerClient.Ledger.Cosigner
import LedgerClient.Script.Outcome
import LedgerClient.Wallet.Strategy

/-!
# JSON forms

How the values of the library stand in JSON. Hashes, outcomes and decimals are texts; a decimal is
also read from a number, a floating-point one by way of its shortest text.
-/

namespace LedgerClient

/-! ## Ledger values -/

namespace Ledger

/-- A hash as its hexadecimal text. -/
def Digest.toJson {size : Nat} (h : Digest size) : Json := .string h.toHex

/-- The hash whose text a value is. -/
def Digest.ofJson? {size : Nat} : Json → Option (Digest size)
  | .string s => (Digest.parse s).toOption
  | _ => none

/-- A scope as the number of its flags. -/
def Scope.toJson (s : Scope) : Json := .integer s.byte.toNat

/-- The scope whose flags a number gives, existing or not. -/
def Scope.ofJson? (v : Json) : Option Scope :=
  (Json.natural? 255 v).map fun n => ⟨UInt8.ofNat n⟩

end Ledger

/-! ## Amounts -/

namespace Decimal

/-- A decimal as its text. -/
def toJson (d : Decimal) : Json := .string d.toText

/-- The decimal that a text or a number is. -/
def ofJson? : Json → Option Decimal
  | .string s => (parse s).toOption
  | .integer n => mk? n 0
  | .double x => (parse x.plainText).toOption
  | _ => none

end Decimal

/-! ## Scripts -/

namespace Script

/-- An outcome as its report. -/
def Outcome.toJson (o : Outcome) : Json := .string o.toText

/-- The outcome whose report a value is. -/
def Outcome.ofJson? : Json → Option Outcome
  | .string s => (Outcome.parse s).toOption
  | _ => none

/-- A kind as its name. -/
def Kind.toJson (kind : Kind) : Json := .string kind.name

/-- The kind whose name a value gives. -/
def Kind.ofJson? : Json → Option Kind := Json.choice? Kind.ofName?

end Script

/-! ## Contracts -/

namespace Contract

/-- A declaration as a record. -/
def EntryPoint.toJson (p : EntryPoint) : Json :=
  .object [
    ("parameter_types", .array (p.parameters.map Script.Kind.toJson)),
    ("return_type", p.result.toJson),
    ("needs_storage", .bool p.capabilities.storage),
    ("needs_dynamic_invoke", .bool p.capabilities.dynamicCalls),
    ("is_payable", .bool p.capabilities.payable)]

/-- The declaration that a record gives. -/
def EntryPoint.ofJson? (v : Json) : Option EntryPoint := do
  match ← Json.record? [["parameter_types"], ["return_type"], ["needs_storage"],
      ["needs_dynamic_invoke"], ["is_payable"]] v with
  | [parameters, result, storage, dynamicCalls, payable] =>
    return {
      parameters := ← Json.required? (Json.list? Script.Kind.ofJson?) parameters
      result := ← Json.required? Script.Kind.ofJson? result
      capabilities := {
        storage := ← Json.required? Json.bool? storage
        dynamicCalls := ← Json.required? Json.bool? dynamicCalls
        payable := ← Json.required? Json.bool? payable } }
  | _ => none

/-- A description as a record. -/
def Description.toJson (d : Description) : Json :=
  .object [
    ("name", .string d.name),
    ("version", .string d.version),
    ("author", .string d.author),
    ("email", .string d.email),
    ("description", .string d.description)]

/-- The description that a record gives. -/
def Description.ofJson? (v : Json) : Option Description := do
  match ← Json.record? [["name"], ["version"], ["author"], ["email"], ["description"]] v with
  | [name, version, author, email, description] =>
    return {
      name := ← Json.required? Json.text? name
      version := ← Json.required? Json.text? version
      author := ← Json.required? Json.text? author
      email := ← Json.required? Json.text? email
      description := ← Json.required? Json.text? description }
  | _ => none

end Contract

/-! ## Strategies -/

/-- A strategy as its name. -/
def Wallet.Strategy.toJson (s : Wallet.Strategy) : Json := .string s.name

/-- The strategy whose name a value gives. -/
def Wallet.Strategy.ofJson? : Json → Option Wallet.Strategy :=
  Json.choice? Wallet.Strategy.ofName?

end LedgerClient
