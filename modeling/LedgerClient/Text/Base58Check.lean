import LedgerClient.Hash.Digest
import LedgerClient.Text.Base58

/-!
# Base 58 with a checksum

A payload followed by its checksum, in base 58. A mistyped character is found when the text is
read, since the last four bytes must be the checksum of those before them.
-/

namespace LedgerClient.Base58Check

/-- Why a text holds no payload. -/
inductive Error where
  /-- The text is not in base 58. -/
  | base58 (e : Base58.Error)
  /-- The text holds fewer bytes than a checksum has. -/
  | tooShort (length : Nat)
  /-- The checksum is not that of the payload. -/
  | checksumMismatch
  deriving DecidableEq, Repr

/-- The wording of an error. -/
def Error.message : Error → String
  | .base58 e => "Invalid base58 data: " ++ e.message
  | .tooShort n =>
    "Invalid base58 data: decoded length " ++ toString n ++ " is shorter than the checksum"
  | .checksumMismatch => "Base58 checksum mismatch"

/-- The text of a payload. -/
def encode (payload : Bytes) : String :=
  Base58.encode (payload ++ Hash.checksum payload)

/-- The payload that a text holds. -/
def decode (s : String) : Except Error Bytes := do
  let bytes ← (Base58.decode s).mapError .base58
  if bytes.length < Hash.checksumSize then .error (.tooShort bytes.length)
  else
    let (payload, sum) := bytes.splitAt (bytes.length - Hash.checksumSize)
    if Hash.verifyChecksum payload sum then .ok payload else .error .checksumMismatch

end LedgerClient.Base58Check
