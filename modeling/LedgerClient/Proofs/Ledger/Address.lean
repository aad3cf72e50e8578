import LedgerClient.Ledger.Address
import LedgerClient.Proofs.Ledger.HashOrder
import LedgerClient.Proofs.Text.Base58

/-!
# Addresses and their accounts

An address has the version of the ledger in front and then the hash of an account, no byte more and
none less. So an account has one address (`Hash160.ofAddress_eq_ok_iff`), and what differs from it
only in the version names no account (`Hash160.ofAddress_addressWithVersion`).
-/

namespace LedgerClient.Ledger

namespace Hash160

variable {s : String} {h : Hash160}

/-- The payload of an address. -/
theorem decode_addressWithVersion (version : UInt8) (h : Hash160) :
    Base58Check.decode (h.addressWithVersion version) = .ok (version :: h.bytes) :=
  Base58Check.decode_eq_ok_iff.2 rfl

/-- An address is read if its version is that of the ledger. -/
theorem ofAddress_addressWithVersion (version : UInt8) (h : Hash160) :
    ofAddress (h.addressWithVersion version) =
      if version = Limits.addressVersion then .ok h else .error (.addressVersion version) := by
  rw [ofAddress, decode_addressWithVersion]
  simp only [h.length_bytes, ne_eq, not_true_eq_false, if_false, ite_not]
  rw [Digest.ofBytes_eq_ok_iff.2 rfl]

/-- An address is read as the account whose address it is. -/
theorem ofAddress_eq_ok_iff : ofAddress s = .ok h ↔ s = h.address := by
  constructor
  · intro hs
    rw [ofAddress] at hs
    split at hs
    · cases hs
    · cases hs
    · next version body hpayload =>
      split at hs
      · cases hs
      split at hs
      · cases hs
      · next hversion =>
        obtain rfl := Digest.ofBytes_eq_ok_iff.1 hs
        rw [not_not] at hversion
        rw [address, addressWithVersion, ← hversion, Base58Check.decode_eq_ok_iff.1 hpayload]
  · rintro rfl
    rw [address, ofAddress_addressWithVersion, if_pos rfl]

end Hash160

end LedgerClient.Ledger
