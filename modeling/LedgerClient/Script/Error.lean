import LedgerClient.Limits
import LedgerClient.Wire.Error

/-!
# Why a script cannot be assembled or read
-/

namespace LedgerClient.Script

/-- Why a script cannot be assembled or read. -/
inductive Error where
  /-- More bytes to push than one instruction may. -/
  | pushTooLong (length : Nat)
  /-- A service name that is empty or too long. -/
  | serviceNameLength (length : Nat)
  /-- Bytes that are not the instruction that was due. -/
  | wire (e : Wire.Error)
  deriving DecidableEq

/-- The largest number of bytes of a service name. -/
def maxServiceName : Nat := 252

/-- The wording of an error. -/
def Error.message : Error → String
  | .pushTooLong length =>
    "push of " ++ toString length ++ " bytes exceeds the maximum of " ++
      toString Limits.maxPushLength
  | .serviceNameLength length =>
    "Invalid operation: syscall name must be 1 to " ++ toString maxServiceName ++
      " bytes, got " ++ toString length
  | .wire e => e.message

end LedgerClient.Script
