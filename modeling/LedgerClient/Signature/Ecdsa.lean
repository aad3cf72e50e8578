import LedgerClient.Hash.Hmac
import LedgerClient.Signature.Key

/-!
# Signatures

ECDSA over SHA-256. The secret number of a signature is drawn from the key and the message as in
RFC 6979, so that signing twice gives the same bytes. A signature is written as two words; reading
one checks that both lie between zero and the order of the group, and nothing more: the larger of
the two admissible second words is made and accepted like the smaller.
-/

namespace LedgerClient.Signature

/-- The two numbers of a signature. -/
structure Pair where
  r : Nat
  s : Nat
  deriving DecidableEq, Repr

namespace Pair

/-- The 64 bytes of a signature. -/
def toBytes (sig : Pair) : Bytes := wordBytes sig.r ++ wordBytes sig.s

/-- The number of bytes of a signature. -/
def size : Nat := 64

@[simp] theorem length_toBytes (sig : Pair) : sig.toBytes.length = size := by
  simp [toBytes, wordBytes, wordSize, size]

/-- The signature that bytes encode. -/
def ofBytes (bs : Bytes) : Except Error Pair :=
  let r := ofWordBytes (bs.take wordSize)
  let s := ofWordBytes (bs.drop wordSize)
  if bs.length = size ∧ 0 < r ∧ r < order ∧ 0 < s ∧ s < order then .ok ⟨r, s⟩
  else .error .signatureForm

end Pair

/-- A message as a number below the order of the group. -/
def messageNumber (message : Bytes) : Nat := ofWordBytes (Hash.sha256 message) % order

/-! ## The secret number -/

/-- The state of the generator of secret numbers: a key and the bytes it last put out. -/
structure NonceState where
  key : Bytes
  value : Bytes

/-- The state with fresh input mixed in. -/
def NonceState.update (st : NonceState) (input : Bytes) : NonceState :=
  let key := Hash.hmacSha256 st.key (st.value ++ input)
  ⟨key, Hash.hmacSha256 key st.value⟩

/-- The state that the key and the message seed. -/
def NonceState.seeded (key : PrivateKey) (message : Bytes) : NonceState :=
  let seed := key.toBytes ++ wordBytes (messageNumber message)
  let st : NonceState := ⟨List.replicate 32 0, List.replicate 32 1⟩
  (st.update (0 :: seed)).update (1 :: seed)

/-- The first number put out that is neither zero nor too large, within `tries` attempts. -/
def NonceState.draw? : Nat → NonceState → Option Nat
  | 0, _ => none
  | tries + 1, st =>
    let value := Hash.hmacSha256 st.key st.value
    let k := ofWordBytes value
    if 0 < k ∧ k < order then some k
    else NonceState.draw? tries (NonceState.update ⟨st.key, value⟩ [0])

/-- How many numbers are drawn at most; all but one in 2³² draws end at the first. -/
def maxDraws : Nat := 64

/-! ## Signing and checking -/

/-- The signature that a key makes on a message. -/
def sign (key : PrivateKey) (message : Bytes) : Except Error Pair :=
  match NonceState.draw? maxDraws (.seeded key message) with
  | none => .error .noNonce
  | some k =>
    match (Jacobian.mul k (.ofPoint generator)).toAffine? with
    | none => .error .noNonce
    | some p =>
      let r := p.x % order
      let s := invMod order k * ((messageNumber message + r * key.scalar) % order) % order
      if r = 0 ∨ s = 0 then .error .noNonce else .ok ⟨r, s⟩

/-- Whether a signature on a message was made with the private key of a public key. -/
def holds (sig : Pair) (message : Bytes) (publicKey : Point) : Bool :=
  let w := invMod order sig.s
  let u₁ := messageNumber message * w % order
  let u₂ := sig.r * w % order
  let sum := (Jacobian.mul u₁ (.ofPoint generator)).add (Jacobian.mul u₂ (.ofPoint publicKey))
  match sum.toAffine? with
  | none => false
  | some p => p.x % order == sig.r

/-- Whether the bytes of a signature fit a message and the bytes of a public key. The form of the
signature is checked before that of the key. -/
def verify (message signature publicKey : Bytes) : Except Error Bool := do
  let sig ← Pair.ofBytes signature
  match Point.ofBytes? publicKey with
  | none => .error .publicKeyForm
  | some p => return holds sig message p

end LedgerClient.Signature
