import LedgerClient.Ledger.Address
import LedgerClient.Script.Opcode
import LedgerClient.Signature.Ecdsa
import LedgerClient.Wallet.Error

/-!
# Key pairs

A private key with the public key that belongs to it. A key pair controls the account whose script
pushes the public key and checks a signature against it. It is exported as text: a version byte, the
private key and a mark that the public key is used in its compressed form, in base 58 with a
checksum.
-/

namespace LedgerClient.Wallet

open Signature (PrivateKey Point)

/-- A private key and its public key. -/
structure KeyPair where
  secret : PrivateKey
  publicPoint : Point
  publicPoint_eq : publicPoint = secret.publicPoint

namespace KeyPair

/-- The key pair of a private key. -/
def ofSecret (secret : PrivateKey) : KeyPair := ⟨secret, secret.publicPoint, rfl⟩

/-- The key pair of the private key that 32 bytes spell. -/
def ofBytes (bs : Bytes) : Except Error KeyPair :=
  match PrivateKey.ofBytes bs with
  | .ok secret => .ok (ofSecret secret)
  | .error _ => .error .privateKey

/-- The compressed public key. -/
def publicKey (k : KeyPair) : Bytes := k.publicPoint.compressed

/-- Whether two key pairs have the same public key. -/
def same (k l : KeyPair) : Bool := k.publicKey == l.publicKey

/-! ## Export -/

/-- The first byte of an exported key. -/
def exportVersion : UInt8 := 0x80

/-- The last byte of an exported key, which says that the public key is compressed. -/
def exportMark : UInt8 := 0x01

/-- The number of bytes of an exported key. -/
def exportSize : Nat := 34

/-- The text of a key pair. -/
def exported (k : KeyPair) : String :=
  Base58Check.encode (exportVersion :: (k.secret.toBytes ++ [exportMark]))

/-- The key pair in an exported payload. -/
def ofPayload (payload : Bytes) : Except Error KeyPair :=
  if payload.length ≠ exportSize then
    .error (.exported (.length exportSize payload.length))
  else
    let version := payload.headD 0
    if version ≠ exportVersion then .error (.exported (.version version))
    else if payload.getLastD 0 ≠ exportMark then .error (.exported .compression)
    else ofBytes ((payload.drop 1).take Signature.wordSize)

/-- The key pair that a text holds. -/
def ofExported (s : String) : Except Error KeyPair :=
  match Base58Check.decode s with
  | .error e => .error (.exported (.text e))
  | .ok payload => ofPayload payload

/-! ## Signing -/

/-- The script that checks signatures of a key pair. -/
def verification (k : KeyPair) : Bytes :=
  UInt8.ofNat Point.compressedSize :: (k.publicKey ++ [Script.Opcode.checkSig.byte])

/-- The account that a key pair controls. -/
def scriptHash (k : KeyPair) : Ledger.Hash160 := Ledger.Hash160.ofScript k.verification

/-- The address of the account. -/
def address (k : KeyPair) : String := k.scriptHash.address

/-- The signature of a message. -/
def sign (k : KeyPair) (message : Bytes) : Except Error Bytes :=
  match Signature.sign k.secret message with
  | .ok sig => .ok sig.toBytes
  | .error e => .error (.signature e)

/-- Whether a signature of a message was made with this key pair. -/
def verify (k : KeyPair) (message signature : Bytes) : Except Error Bool :=
  (Signature.verify message signature k.publicKey).mapError .signature

end KeyPair

end LedgerClient.Wallet
