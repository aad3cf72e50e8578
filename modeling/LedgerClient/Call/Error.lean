import LedgerClient.Rpc.Failure
import LedgerClient.Wallet.Error

/-!
# Why a call cannot be made
-/

namespace LedgerClient.Call

/-- The two fees of a call. -/
inductive Fee where
  /-- What the network gets for carrying the transaction. -/
  | network
  /-- What is paid for running the script. -/
  | system
  deriving DecidableEq, Repr

/-- The word for a fee. -/
def Fee.name : Fee → String
  | .network => "network"
  | .system => "system"

/-- What is missing or wrong in the plan of a call. -/
inductive Defect where
  /-- There is no contract. -/
  | noContract
  /-- There is no account. -/
  | noAccount
  /-- There is no time between two polls. -/
  | noInterval
  /-- A fee is below zero. -/
  | negativeFee (fee : Fee) (amount : Fixed8)
  deriving DecidableEq

/-- The wording of a defect. -/
def Defect.message : Defect → String
  | .noContract => "no contract script hash set"
  | .noAccount => "no account set"
  | .noInterval => "poll interval must be greater than zero"
  | .negativeFee fee amount => fee.name ++ " fee must not be negative, got " ++ amount.toText

/-- Why a call cannot be made. -/
inductive Error where
  | defect (d : Defect)
  | wallet (e : Wallet.Error)
  | ledger (e : Ledger.Error)
  | script (e : Script.Error)
  | node (failure : Rpc.Failure)
  /-- The call is to be sent before it is signed. -/
  | notSigned
  /-- The amounts of the call have too many bits. -/
  | amounts
  deriving DecidableEq

/-- The wording of an error. -/
def Error.message : Error → String
  | .defect d => "Validation error: " ++ d.message
  | .wallet e => "Wallet error: " ++ e.message
  | .ledger e => "Core error: " ++ e.message
  | .script e => "Script error: " ++ e.message
  | .node failure => "RPC error: " ++ failure.message
  | .notSigned => "the transaction must be signed before it is sent"
  | .amounts => "the amounts of the call are too large"

end LedgerClient.Call
