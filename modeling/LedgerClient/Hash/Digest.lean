import LedgerClient.Hash.Sha256
import LedgerClient.Hash.Ripemd160

/-!
# The ledger's digests

Transactions are named by `hash256` and scripts by `hash160`; texts that a user may mistype carry
the four bytes of `checksum`. All three have fixed lengths.
-/

namespace LedgerClient.Hash

/-- SHA-256 applied twice. -/
def hash256 (message : Bytes) : Bytes :=
  sha256 (sha256 message)

/-- RIPEMD-160 of SHA-256. -/
def hash160 (message : Bytes) : Bytes :=
  ripemd160 (sha256 message)

/-- The number of bytes of a checksum. -/
def checksumSize : Nat := 4

/-- The first four bytes of the double SHA-256. -/
def checksum (message : Bytes) : Bytes :=
  (hash256 message).take checksumSize

/-- Whether `expected` is the checksum of `message`. -/
def verifyChecksum (message expected : Bytes) : Bool :=
  checksum message == expected

@[simp] theorem length_hash256 (message : Bytes) : (hash256 message).length = 32 :=
  length_sha256 _

@[simp] theorem length_hash160 (message : Bytes) : (hash160 message).length = 20 :=
  length_ripemd160 _

@[simp] theorem length_checksum (message : Bytes) : (checksum message).length = 4 := by
  simp [checksum, checksumSize]

end LedgerClient.Hash
