import LedgerClient.Hash.Sha256

/-!
# HMAC-SHA-256

A digest of a message under a key: the key, masked in two ways, goes in front of two rounds of
SHA-256. It drives the choice of the secret number in a signature.
-/

namespace LedgerClient.Hash

/-- A key brought to one block: hashed if it is longer, then filled with zeros. -/
def hmacKey (key : Bytes) : Bytes :=
  let key := if key.length > 64 then sha256 key else key
  key ++ List.replicate (64 - key.length) 0

/-- The HMAC-SHA-256 of a message under a key. -/
def hmacSha256 (key message : Bytes) : Bytes :=
  let key := hmacKey key
  sha256 (key.map (· ^^^ 0x5c) ++ sha256 (key.map (· ^^^ 0x36) ++ message))

@[simp] theorem length_hmacSha256 (key message : Bytes) : (hmacSha256 key message).length = 32 :=
  length_sha256 _

end LedgerClient.Hash
