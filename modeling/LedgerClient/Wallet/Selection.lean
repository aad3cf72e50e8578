import LedgerClient.Ledger.Input
import LedgerClient.Wallet.Error
import LedgerClient.Wallet.Strategy

/-!
# Choosing outputs to spend

To cover an amount of an asset, the candidates of that asset are put in the order that the strategy
asks for and taken from the front until they are worth enough. The order is stable: candidates of
equal value keep the order in which they were given. What they are worth beyond the amount is the
change.
-/

namespace LedgerClient.Wallet

open Ledger (Hash256 Unspent)

/-- Outputs chosen to cover an amount. -/
structure Selection where
  /-- The outputs, in the order in which they are spent. -/
  selected : List Unspent
  /-- What they are worth together. -/
  total : Decimal
  /-- What they are worth beyond the amount. -/
  change : Decimal
  deriving DecidableEq

namespace Selection

/-- Whether something is left to be paid back. -/
def hasChange (s : Selection) : Bool := 0 < s.change.mantissa

/-- Whether a candidate may be spent before another. -/
def before : Strategy → Unspent → Unspent → Bool
  | .asGiven, _, _ => true
  | .largestFirst, u, v => v.value.le u.value
  | .smallestFirst, u, v => u.value.le v.value

/-- Candidates in the order that a strategy asks for. -/
def arrange (strategy : Strategy) (candidates : List Unspent) : List Unspent :=
  match strategy with
  | .asGiven => candidates
  | _ => candidates.mergeSort (before strategy)

/-- The candidates of an asset. -/
def ofAsset (asset : Hash256) (candidates : List Unspent) : List Unspent :=
  candidates.filter fun u => u.asset == asset

/-- Candidates from the front until they and what is already there are worth enough, and what all is
worth then. There is no answer if a sum does not fit. -/
def takeEnough (required : Decimal) : Decimal → List Unspent → Option (List Unspent × Decimal)
  | total, [] => some ([], total)
  | total, u :: us =>
    if required.le total then some ([], total)
    else
      match total.add? u.value with
      | none => none
      | some sum =>
        match takeEnough required sum us with
        | none => none
        | some (selected, worth) => some (u :: selected, worth)

/-- The candidates of an asset that cover an amount. -/
def select (strategy : Strategy) (asset : Hash256) (required : Decimal)
    (candidates : List Unspent) : Except Error Selection :=
  if required.isNegative then .error (.amount (.negative required))
  else
    match takeEnough required .zero (arrange strategy (ofAsset asset candidates)) with
    | none => .error (.amount (.selectionSum asset))
    | some (selected, total) =>
      if required.le total then
        match total.sub? required with
        | none => .error .difference
        | some change => .ok ⟨selected, total, change⟩
      else
        match required.sub? total with
        | none => .error .difference
        | some shortfall => .error (.insufficientFunds asset required total shortfall)

end Selection

end LedgerClient.Wallet
