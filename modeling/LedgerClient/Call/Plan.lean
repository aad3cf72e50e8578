import LedgerClient.Call.Error
import LedgerClient.Ledger.Invocation
import LedgerClient.Rpc.Tracker
import LedgerClient.Wallet.Account

/-!
# Planning a call

A plan gathers what a call of a contract needs: the contract and its arguments, the account that
pays and signs, attributes, payments to be made along with it, and the two fees. Building a plan
gives the transaction.

For each asset that is paid, in the order of first mention, the account's outputs have to cover the
amount; what they are worth beyond it goes back to the account as change. Fees are paid in the fee
asset. A transaction without inputs or without outputs names the account in an attribute, and one
that has neither gets a remark, so that it differs from every other.
-/

namespace LedgerClient.Call

open Ledger (Hash160 Hash256 Attribute Input Output Invocation)
open Rpc (PollPolicy)
open Script (Parameter)
open Wallet (Account Selection Strategy)

/-- What a call of a contract needs. -/
structure Plan where
  contract : Option Hash160
  account : Option Account
  parameters : List Parameter
  attributes : List Attribute
  outputs : List Output
  /-- The text of the fee for the network. -/
  networkFee : Option String
  /-- The text of the fee for running the script. -/
  systemFee : Option String
  strategy : Strategy
  /-- The remark that makes the transaction differ from others, if it needs one. -/
  remark : Bytes
  policy : PollPolicy

/-- An assembled call. -/
structure Prepared where
  account : Account
  transaction : Invocation
  /-- The name of the transaction. -/
  id : Hash256
  signed : Bool
  policy : PollPolicy

namespace Plan

/-- The plan to which nothing has been added, with the remark to be used. -/
def new (remark : Bytes) : Plan :=
  ⟨none, none, [], [], [], none, none, .asGiven, remark, .default⟩

/-- The plan with strategy and polling taken from settings. -/
def withSettings (p : Plan) (s : Config.Settings) : Plan :=
  { p with strategy := s.strategy, policy := .ofSettings s }

/-! ## Amounts -/

/-- The fee that a text gives; none is zero. -/
def parseFee (fee : Fee) : Option String → Except Error Fixed8
  | none => .ok .zero
  | some text =>
    match Fixed8.parse text with
    | .error e => .error (.ledger (.ofAmountText e))
    | .ok amount =>
      if amount.raw < 0 then .error (.defect (.negativeFee fee amount)) else .ok amount

/-- Amounts by asset with one more amount, if all fit. -/
def addAmount (asset : Hash256) (amount : Decimal) :
    List (Hash256 × Decimal) → Option (List (Hash256 × Decimal))
  | [] => some [(asset, amount)]
  | (a, total) :: rest =>
    if a = asset then (total.add? amount).map fun sum => (a, sum) :: rest
    else (addAmount asset amount rest).map ((a, total) :: ·)

/-- The amounts that outputs pay, by asset in the order of first mention. -/
def paidAmounts (outputs : List Output) : Option (List (Hash256 × Decimal)) :=
  outputs.foldlM (fun amounts o => addAmount o.asset o.value amounts) []

/-- The amounts to be covered: what outputs pay, and the fees. -/
def requiredAmounts (outputs : List Output) (fees : Decimal) : Option (List (Hash256 × Decimal)) := do
  let amounts ← paidAmounts outputs
  if 0 < fees.mantissa then addAmount Hash256.feeAsset fees amounts else return amounts

/-! ## Funds -/

/-- Inputs that cover amounts, and outputs that pay back the change. -/
structure Funds where
  inputs : List Input
  change : List Output

/-- The change of a selection, paid back to its account. -/
def changeOf (account : Hash160) (asset : Hash256) (s : Selection) : Except Error (List Output) :=
  if s.hasChange then
    match Output.ofParts asset s.change account with
    | .ok o => .ok [o]
    | .error e => .error (.ledger e)
  else .ok []

/-- What an account puts up for amounts, one asset after the other. -/
def fund (account : Account) (strategy : Strategy) :
    List (Hash256 × Decimal) → Except Error Funds
  | [] => .ok ⟨[], []⟩
  | (asset, amount) :: rest =>
    if amount.isZero then fund account strategy rest
    else do
      let s ← (account.select asset amount strategy).mapError .wallet
      let change ← changeOf account.scriptHash asset s
      let funds ← fund account strategy rest
      return ⟨s.selected.map (·.toInput) ++ funds.inputs, change ++ funds.change⟩

/-! ## Attributes -/

/-- The attributes with the one that names the account, where it is needed and not yet there. -/
def nameAccount (account : Hash160) (inputs : List Input) (outputs : List Output)
    (attributes : List Attribute) : List Attribute :=
  if inputs.isEmpty || outputs.isEmpty then
    if attributes.contains (Attribute.script account) then attributes
    else attributes ++ [Attribute.script account]
  else attributes

/-- The attributes with a remark, where it is needed. -/
def addRemark (remark : Bytes) (inputs : List Input) (outputs : List Output)
    (attributes : List Attribute) : Except Error (List Attribute) :=
  if inputs.isEmpty && outputs.isEmpty then
    match Attribute.remark remark with
    | .ok a => .ok (attributes ++ [a])
    | .error e => .error (.ledger e)
  else .ok attributes

/-! ## Building -/

/-- The transaction with the given parts. -/
def assemble (script : Bytes) (systemFee : Fixed8) (attributes : List Attribute)
    (inputs : List Input) (outputs : List Output) : Except Ledger.Error Invocation := do
  let t ← Invocation.withAttributes { Invocation.new with script := script, gas := systemFee }
    attributes
  ((t.withInputs inputs).withOutputs outputs).finish

/-- The assembled call. -/
def build (p : Plan) : Except Error Prepared := do
  let some contract := p.contract | .error (.defect .noContract)
  let some account := p.account | .error (.defect .noAccount)
  if p.policy.interval = 0 then .error (.defect .noInterval)
  else
    let script ← (Script.appCall contract p.parameters).toExcept.mapError .script
    let networkFee ← parseFee .network p.networkFee
    let systemFee ← parseFee .system p.systemFee
    let some fees := networkFee.toDecimal.add? systemFee.toDecimal | .error .amounts
    let some amounts := requiredAmounts p.outputs fees | .error .amounts
    let funds ← fund account p.strategy amounts
    let outputs := p.outputs ++ funds.change
    let attributes ← addRemark p.remark funds.inputs outputs
      (nameAccount account.scriptHash funds.inputs outputs p.attributes)
    let transaction ← (assemble script systemFee attributes funds.inputs outputs).mapError .ledger
    return ⟨account, transaction, transaction.id, false, p.policy⟩

end Plan

end LedgerClient.Call
