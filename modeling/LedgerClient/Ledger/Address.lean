import LedgerClient.Ledger.Digest

/-!
# Addresses

An address is the text form of an account: a version byte and the account's script hash, in base 58
with a checksum. Only addresses with the ledger's own version are read.
-/

namespace LedgerClient.Ledger.Hash160

/-- The address of an account, with a version of choice. -/
def addressWithVersion (version : UInt8) (h : Hash160) : String :=
  Base58Check.encode (version :: h.bytes)

/-- The address of an account. -/
def address (h : Hash160) : String := addressWithVersion Limits.addressVersion h

/-- The account that an address names. -/
def ofAddress (s : String) : Except Error Hash160 :=
  match Base58Check.decode s with
  | .error e => .error (.addressText s e)
  | .ok [] => .error .addressLength
  | .ok (version :: body) =>
    if body.length ≠ Limits.scriptHashSize then .error .addressLength
    else if version ≠ Limits.addressVersion then .error (.addressVersion version)
    else Digest.ofBytes body

end LedgerClient.Ledger.Hash160
