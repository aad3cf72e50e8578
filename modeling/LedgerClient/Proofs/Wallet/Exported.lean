import LedgerClient.Proofs.Ledger.Address
import LedgerClient.Wallet.KeyPair

/-!
# Texts of accounts and of keys

An exported key is a version, the private key and a mark, each in its place of a fixed number of
bytes. A private key is spelled by 32 bytes only, so that a key pair has one text
(`KeyPair.ofExported_eq_ok_iff`), as an account has one address. The payloads of the two differ in
length, and no text is both (`accounts_and_keys_have_one_text`).
-/

namespace LedgerClient

open Ledger (Hash160)

/-! ## Private keys -/

namespace Signature

/-- A number below 2²⁵⁶ is read back from its 32 bytes. -/
theorem ofWordBytes_wordBytes {n : Nat} (h : n < 256 ^ wordSize) :
    ofWordBytes (wordBytes n) = n := by
  rw [ofWordBytes, wordBytes, List.reverse_reverse, Bytes.toNat_littleEndian h]

/-- So are 32 bytes from their number. -/
theorem wordBytes_ofWordBytes {bs : Bytes} (h : bs.length = wordSize) :
    wordBytes (ofWordBytes bs) = bs := by
  rw [wordBytes, ofWordBytes, ← h, ← List.length_reverse, Bytes.littleEndian_toNat,
    List.reverse_reverse]

@[simp] theorem length_wordBytes (n : Nat) : (wordBytes n).length = wordSize := by
  rw [wordBytes, List.length_reverse, Bytes.length_littleEndian]

/-- Bytes spell the private key whose bytes they are. -/
theorem PrivateKey.ofBytes_eq_ok_iff {bs : Bytes} {key : PrivateKey} :
    PrivateKey.ofBytes bs = .ok key ↔ bs = key.toBytes := by
  rw [PrivateKey.ofBytes]
  constructor
  · intro h
    split at h
    · cases h
    · next hlength =>
      dsimp only at h
      split at h
      · cases h
        exact (wordBytes_ofWordBytes (not_not.1 hlength)).symm
      · cases h
  · rintro rfl
    have hscalar : ofWordBytes key.toBytes = key.scalar :=
      ofWordBytes_wordBytes (Nat.lt_trans key.scalar_lt (by decide))
    have hlength : key.toBytes.length = wordSize := length_wordBytes key.scalar
    rw [if_neg (not_not.2 hlength)]
    simp only [hscalar]
    rw [dif_pos ⟨key.scalar_pos, key.scalar_lt⟩]

end Signature

namespace Wallet.KeyPair

open Signature (PrivateKey)

variable {k : KeyPair}

/-! ## Exported keys -/

/-- Key pairs with one private key are one. -/
theorem ofSecret_secret (k : KeyPair) : ofSecret k.secret = k := by
  obtain ⟨secret, _, rfl⟩ := k
  rfl

/-- Bytes are read as the key pair of the private key whose bytes they are. -/
theorem ofBytes_eq_ok_iff {bs : Bytes} : ofBytes bs = .ok k ↔ bs = k.secret.toBytes := by
  rw [← PrivateKey.ofBytes_eq_ok_iff, ofBytes]
  constructor
  · intro h
    split at h
    · next secret hsecret =>
      cases h
      exact hsecret
    · cases h
  · intro h
    rw [h]
    exact congrArg Except.ok (ofSecret_secret k)

/-- The payload of an exported key in parts. -/
theorem exists_parts {payload : Bytes} (h : payload.length = exportSize) :
    ∃ version body mark, payload = version :: (body ++ [mark]) ∧
      body.length = Signature.wordSize := by
  cases payload with
  | nil => cases h
  | cons version rest =>
    have hlength : rest.length = Signature.wordSize + 1 := Nat.succ.inj h
    have hne : rest ≠ [] := List.ne_nil_of_length_eq_add_one hlength
    refine ⟨version, rest.dropLast, rest.getLast hne, ?_, ?_⟩
    · rw [List.dropLast_concat_getLast]
    · rw [List.length_dropLast, hlength, Nat.add_sub_cancel]

/-- What is read of a payload in parts. -/
theorem ofPayload_parts {version mark : UInt8} {body : Bytes}
    (h : body.length = Signature.wordSize) :
    ofPayload (version :: (body ++ [mark])) = .ok k ↔
      version = exportVersion ∧ mark = exportMark ∧ body = k.secret.toBytes := by
  have hlength : (version :: (body ++ [mark])).length = exportSize := by
    rw [List.length_cons, List.length_append, h]
    rfl
  have hmark : (version :: (body ++ [mark])).getLastD 0 = mark := by
    rw [List.getLastD_cons, List.getLastD_concat]
  have hbody : ((version :: (body ++ [mark])).drop 1).take Signature.wordSize = body := by
    rw [List.drop_one, List.tail_cons, ← h, List.take_left]
  rw [ofPayload, if_neg (not_not.2 hlength), hmark, hbody, List.headD_cons, ← ofBytes_eq_ok_iff]
  dsimp only
  split
  · next hversion => exact iff_of_false nofun fun hparts => hversion hparts.1
  split
  · next hversion hmark => exact iff_of_false nofun fun hparts => hmark hparts.2.1
  · next hversion hmark =>
    rw [and_iff_right (not_not.1 hversion), and_iff_right (not_not.1 hmark)]

/-- A payload is read if it has the version, the bytes of the private key, and the mark. -/
theorem ofPayload_eq_ok_iff {payload : Bytes} :
    ofPayload payload = .ok k ↔ payload = exportVersion :: (k.secret.toBytes ++ [exportMark]) := by
  constructor
  · intro h
    have hlength : payload.length = exportSize := by
      by_contra hlength
      rw [ofPayload, if_pos hlength] at h
      cases h
    obtain ⟨version, body, mark, rfl, hbody⟩ := exists_parts hlength
    obtain ⟨rfl, rfl, rfl⟩ := (ofPayload_parts hbody).1 h
    rfl
  · rintro rfl
    exact (ofPayload_parts (Signature.length_wordBytes _)).2 ⟨rfl, rfl, rfl⟩

/-- The payload of an exported key. -/
theorem decode_exported (k : KeyPair) : Base58Check.decode k.exported =
    .ok (exportVersion :: (k.secret.toBytes ++ [exportMark])) :=
  Base58Check.decode_eq_ok_iff.2 rfl

/-- An exported key is read as the key pair whose text it is. -/
theorem ofExported_eq_ok_iff {s : String} : ofExported s = .ok k ↔ s = k.exported := by
  rw [ofExported]
  constructor
  · intro h
    split at h
    · cases h
    · next payload hpayload =>
      obtain rfl := ofPayload_eq_ok_iff.1 h
      exact (Base58Check.decode_eq_ok_iff.1 hpayload).symm
  · rintro rfl
    rw [decode_exported]
    exact ofPayload_eq_ok_iff.2 rfl

/-- A key pair is read if its private key is. -/
theorem map_secret_eq_ok_iff {x : Except Error KeyPair} :
    x.map secret = .ok k.secret ↔ x = .ok k := by
  cases x with
  | error e => exact iff_of_false nofun nofun
  | ok l =>
    constructor
    · intro h
      have hsecret : l.secret = k.secret := Except.ok.inj h
      rw [← ofSecret_secret l, hsecret, ofSecret_secret]
    · rintro ⟨⟩
      rfl

/-! ## Texts of one kind are none of the other -/

/-- The payload of an address is too short for a key. -/
theorem ofExported_addressWithVersion (version : UInt8) (h : Hash160) :
    ofExported (h.addressWithVersion version) = .error (.exported (.length exportSize 21)) := by
  have hlength : (version :: h.bytes).length = 21 := congrArg Nat.succ h.length_bytes
  rw [ofExported, h.decode_addressWithVersion]
  show ofPayload (version :: h.bytes) = _
  rw [ofPayload, hlength, if_pos (by decide)]

/-- The payload of a key is too long for an address. -/
theorem ofAddress_exported (k : KeyPair) : Hash160.ofAddress k.exported = .error .addressLength := by
  have hlength : (k.secret.toBytes ++ [exportMark]).length = 33 := by
    rw [List.length_append, PrivateKey.toBytes, Signature.length_wordBytes]
    rfl
  rw [Hash160.ofAddress, decode_exported]
  simp only [hlength]
  rfl

end Wallet.KeyPair

open Wallet (KeyPair)

/-- A text is read as an account if it is the address of that account, and as a key pair if it is
the text of that key pair. An address with another version is none, and no text is read as both. -/
theorem accounts_and_keys_have_one_text :
    (∀ (s : String) (h : Hash160), Hash160.ofAddress s = .ok h ↔ s = h.address) ∧
    (∀ (version : UInt8) (h : Hash160), Hash160.ofAddress (h.addressWithVersion version) =
      if version = Limits.addressVersion then .ok h else .error (.addressVersion version)) ∧
    (∀ (s : String) (k : KeyPair),
      (KeyPair.ofExported s).map KeyPair.secret = .ok k.secret ↔ s = k.exported) ∧
    (∀ (version : UInt8) (h : Hash160), KeyPair.ofExported (h.addressWithVersion version) =
      .error (.exported (.length KeyPair.exportSize 21))) ∧
    (∀ k : KeyPair, Hash160.ofAddress k.exported = .error .addressLength) ∧
    ∀ (s : String) (h : Hash160) (k : KeyPair),
      ¬ (Hash160.ofAddress s = .ok h ∧ KeyPair.ofExported s = .ok k) := by
  refine ⟨fun s h => Hash160.ofAddress_eq_ok_iff, Hash160.ofAddress_addressWithVersion,
    fun s k => KeyPair.map_secret_eq_ok_iff.trans KeyPair.ofExported_eq_ok_iff,
    KeyPair.ofExported_addressWithVersion, KeyPair.ofAddress_exported, ?_⟩
  rintro s h k ⟨haddress, hexported⟩
  obtain rfl := KeyPair.ofExported_eq_ok_iff.1 hexported
  rw [KeyPair.ofAddress_exported] at haddress
  cases haddress

end LedgerClient
