/-!
# What can be wrong with a key or a signature

Each cause has one wording. Whatever is wrong inside a key or a signature of the right length is
reported without detail, so that the text says nothing about a secret.
-/

namespace LedgerClient.Signature

/-- Why a key or a signature is refused. -/
inductive Error where
  /-- A private key of this many bytes. -/
  | privateKeyLength (length : Nat)
  /-- A private key that is zero or not below the order of the group. -/
  | privateKeyRange
  /-- Bytes that encode no point of the curve. -/
  | publicKeyForm
  /-- Bytes that are no pair of numbers between zero and the order of the group. -/
  | signatureForm
  /-- No secret number for a signature was found. -/
  | noNonce
  deriving DecidableEq, Repr

/-- The wording of an error. -/
def Error.message : Error → String
  | .privateKeyLength n => "Invalid key: private key must be 32 bytes, got " ++ toString n
  | .privateKeyRange => "Invalid key: Invalid private key: signature error"
  | .publicKeyForm => "Invalid key: Invalid public key: signature error"
  | .signatureForm => "Invalid signature: Invalid signature format: signature error"
  | .noNonce => "Invalid signature: signature error"

end LedgerClient.Signature
