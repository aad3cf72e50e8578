import LedgerClient.Signature.Curve
import LedgerClient.Signature.Error

/-!
# Keys and their encodings

A private key is a number between zero and the order of the group, both excluded; a public key is
the multiple of the generator that it picks. Public keys are written in the forms of SEC 1: the
tag 2 or 3 with one coordinate, which leaves the sign of the other to the tag; the tag 4 with both;
and, when read, the tag 5 with one coordinate, which stands for the smaller of the two others.
-/

namespace LedgerClient.Signature

/-- A private key: a number that is neither zero nor too large. -/
structure PrivateKey where
  scalar : Nat
  scalar_pos : 0 < scalar
  scalar_lt : scalar < order
  deriving DecidableEq

/-- The private key that 32 bytes spell, most significant first. -/
def PrivateKey.ofBytes (bs : Bytes) : Except Error PrivateKey :=
  if bs.length ≠ wordSize then .error (.privateKeyLength bs.length)
  else
    let n := ofWordBytes bs
    if h : 0 < n ∧ n < order then .ok ⟨n, h.1, h.2⟩ else .error .privateKeyRange

/-- The 32 bytes of a private key, most significant first. -/
def PrivateKey.toBytes (key : PrivateKey) : Bytes := wordBytes key.scalar

/-- The public key that belongs to a private key. -/
def PrivateKey.publicPoint (key : PrivateKey) : Point :=
  ((Jacobian.mul key.scalar (.ofPoint generator)).toAffine?).getD generator

namespace Point

/-- The number of bytes of a public key with one coordinate. -/
def compressedSize : Nat := 33

/-- A public key with one coordinate; the tag tells whether the other is odd. -/
def compressed (p : Point) : Bytes :=
  (if p.y % 2 = 1 then 3 else 2) :: wordBytes p.x

/-- A public key with both coordinates. -/
def uncompressed (p : Point) : Bytes :=
  4 :: (wordBytes p.x ++ wordBytes p.y)

@[simp] theorem length_compressed (p : Point) : p.compressed.length = compressedSize := by
  simp [compressed, wordBytes, wordSize, compressedSize]

/-- The point with first coordinate `x` whose second one `pick` chooses, given the two there are. -/
def ofX? (x : Nat) (pick : Nat → Nat → Nat) : Option Point := do
  guard (x < fieldPrime)
  let root ← sqrtMod? (curveRhs x)
  return ⟨x, pick root (subMod fieldPrime 0 root)⟩

/-- The one of two numbers that is odd or even as asked. -/
def withParity (odd : Bool) (y y' : Nat) : Nat :=
  if (y % 2 == 1) == odd then y else y'

/-- The public key that bytes encode. -/
def ofBytes? (bs : Bytes) : Option Point :=
  match bs with
  | [] => none
  | tag :: body =>
    if body.length = wordSize then
      let x := ofWordBytes body
      if tag = 2 then ofX? x (withParity false)
      else if tag = 3 then ofX? x (withParity true)
      else if tag = 5 then ofX? x min
      else none
    else if body.length = 2 * wordSize then
      let p : Point := ⟨ofWordBytes (body.take wordSize), ofWordBytes (body.drop wordSize)⟩
      if tag = 4 ∧ p.onCurve then some p else none
    else none

end Point

end LedgerClient.Signature
