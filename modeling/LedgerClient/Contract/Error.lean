import LedgerClient.Script.Error

/-!
# Why a contract cannot be described or deployed
-/

namespace LedgerClient.Contract

/-- The service that creates a contract. -/
def createService : String := "Neo.Contract.Create"

/-- Why a contract cannot be described or deployed. -/
inductive Error where
  /-- A kind of argument or result that does not exist. -/
  | unknownKind (tag : UInt8)
  /-- The number at `offset`, which tells the kind of the result, is no tag. -/
  | resultTag (offset : Nat)
  /-- More bytes from `offset` on than there should be. -/
  | trailing (offset : Nat)
  /-- The call at `offset` is not the one that creates a contract. -/
  | service (offset : Nat) (name : String)
  /-- A contract without a script. -/
  | noScript
  /-- A contract whose script is too long. -/
  | scriptLength (length : Nat)
  /-- Pushes that cannot be made or read. -/
  | script (e : Script.Error)
  deriving DecidableEq

namespace Error

/-- The error of bytes that cannot be read. -/
def ofWire (e : Wire.Error) : Error := .script (.wire e)

/-- What is wrong with a script that deploys no contract; errors of other kinds are worded by
themselves. -/
def deploymentFault? : Error → Option String
  | .resultTag offset => some ("return type at offset " ++ toString offset ++ " is not a type tag")
  | .trailing offset => some ("unexpected data at offset " ++ toString offset)
  | .service offset name =>
    some ("expected syscall " ++ createService ++ " at offset " ++ toString offset ++ ", found " ++
      name)
  | .noScript => some "contract script is empty"
  | .scriptLength length =>
    some ("contract script of " ++ toString length ++ " bytes exceeds maximum " ++
      toString Limits.maxScriptLength)
  | .unknownKind _ | .script _ => none

/-- The wording of an error. -/
def message (e : Error) : String :=
  match e.deploymentFault? with
  | some fault => "malformed deployment script: " ++ fault
  | none =>
    match e with
    | .unknownKind tag => "unknown contract parameter type " ++ Hex.byteLiteral tag
    | .script e => e.message
    | _ => ""

end Error

end LedgerClient.Contract
