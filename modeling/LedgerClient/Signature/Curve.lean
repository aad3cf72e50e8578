import LedgerClient.Bytes.Basic

/-!
# The curve P-256

The group in which keys and signatures live: the points of `y² = x³ - 3x + b` over the integers
modulo a prime `fieldPrime`, a group of prime order `order` generated by `generator`. Points are
kept in Jacobian coordinates, where `(x, y, z)` stands for `(x / z², y / z³)` and `z = 0` for the
neutral element, so that adding points takes no division; `Jacobian.toAffine?` divides once at the
end.
-/

namespace LedgerClient.Signature

/-- The prime modulo which coordinates are taken. -/
def fieldPrime : Nat := 0xffffffff00000001000000000000000000000000ffffffffffffffffffffffff

/-- The number of points, a prime. -/
def order : Nat := 0xffffffff00000000ffffffffffffffffbce6faada7179e84f3b9cac2fc632551

/-- The constant term of the curve's equation. -/
def curveConstant : Nat := 0x5ac635d8aa3a93e7b3ebbd55769886bc651d06b0cc53b0f63bce3c3e27d2604b

/-- The number of bytes of a coordinate or of a number below `order`. -/
def wordSize : Nat := 32

/-! ## Numbers modulo a prime -/

/-- The difference of two numbers below `m`, modulo `m`. -/
def subMod (m x y : Nat) : Nat := (x + m - y) % m

/-- The bits of a number below 2²⁵⁶, most significant first. -/
def bits (n : Nat) : List Bool := (List.range 256).reverse.map n.testBit

/-- A power modulo `m`, for exponents below 2²⁵⁶. -/
def powMod (m base exponent : Nat) : Nat :=
  (bits exponent).foldl (fun acc bit =>
    let square := acc * acc % m
    if bit then square * base % m else square) 1

/-- The inverse modulo a prime `m`, by Fermat's little theorem. -/
def invMod (m x : Nat) : Nat := powMod m x (m - 2)

/-- A square root modulo `fieldPrime`, which leaves remainder 3 modulo 4, if there is one. -/
def sqrtMod? (x : Nat) : Option Nat :=
  let root := powMod fieldPrime x ((fieldPrime + 1) / 4)
  if root * root % fieldPrime = x then some root else none

/-! ## Points -/

/-- A point other than the neutral element. -/
structure Point where
  x : Nat
  y : Nat
  deriving DecidableEq, Repr

/-- The right-hand side of the curve's equation. -/
def curveRhs (x : Nat) : Nat :=
  (x * x % fieldPrime * x + (fieldPrime - 3) * x + curveConstant) % fieldPrime

/-- Whether the coordinates are reduced and satisfy the curve's equation. -/
def Point.onCurve (p : Point) : Bool :=
  p.x < fieldPrime && p.y < fieldPrime && p.y * p.y % fieldPrime == curveRhs p.x

/-- The point all multiples of which make up the group. -/
def generator : Point where
  x := 0x6b17d1f2e12c4247f8bce6e563a440f277037d812deb33a0f4a13945d898c296
  y := 0x4fe342e2fe1a7f9b8ee7eb4a7c0f9e162bce33576b315ececbb6406837bf51f5

/-- A point in Jacobian coordinates. -/
structure Jacobian where
  x : Nat
  y : Nat
  z : Nat
  deriving DecidableEq

namespace Jacobian

/-- The neutral element. -/
def zero : Jacobian := ⟨1, 1, 0⟩

/-- A point taken over. -/
def ofPoint (p : Point) : Jacobian := ⟨p.x, p.y, 1⟩

/-- A point added to itself. -/
def double (p : Jacobian) : Jacobian :=
  let m := fieldPrime
  let delta := p.z * p.z % m
  let gamma := p.y * p.y % m
  let beta := p.x * gamma % m
  let alpha := 3 * (subMod m p.x delta * (p.x + delta) % m) % m
  let x := subMod m (alpha * alpha % m) (8 * beta % m)
  let yz := (p.y + p.z) % m
  let z := subMod m (subMod m (yz * yz % m) gamma) delta
  let y := subMod m (alpha * subMod m (4 * beta % m) x % m) (8 * (gamma * gamma % m) % m)
  ⟨x, y, z⟩

/-- The sum of two points. -/
def add (p q : Jacobian) : Jacobian :=
  if p.z = 0 then q
  else if q.z = 0 then p
  else
    let m := fieldPrime
    let pz2 := p.z * p.z % m
    let qz2 := q.z * q.z % m
    let u₁ := p.x * qz2 % m
    let u₂ := q.x * pz2 % m
    let s₁ := p.y * (q.z * qz2 % m) % m
    let s₂ := q.y * (p.z * pz2 % m) % m
    let h := subMod m u₂ u₁
    let r := subMod m s₂ s₁
    if h = 0 then
      if r = 0 then double p else zero
    else
      let h2 := h * h % m
      let h3 := h * h2 % m
      let v := u₁ * h2 % m
      let x := subMod m (subMod m (r * r % m) h3) (2 * v % m)
      let y := subMod m (r * subMod m v x % m) (s₁ * h3 % m)
      ⟨x, y, h * (p.z * q.z % m) % m⟩

/-- A point added to itself `k` times, for `k` below 2²⁵⁶. -/
def mul (k : Nat) (p : Jacobian) : Jacobian :=
  (bits k).foldl (fun acc bit =>
    let twice := double acc
    if bit then add twice p else twice) zero

/-- The point with its coordinates divided out; the neutral element has none. -/
def toAffine? (p : Jacobian) : Option Point :=
  if p.z = 0 then none
  else
    let m := fieldPrime
    let inv := invMod m p.z
    let inv2 := inv * inv % m
    some ⟨p.x * inv2 % m, p.y * (inv2 * inv % m) % m⟩

end Jacobian

/-- A number below 2²⁵⁶ as a word, most significant byte first. -/
def wordBytes (n : Nat) : Bytes := (Bytes.littleEndian wordSize n).reverse

/-- The number that bytes spell, most significant first. -/
def ofWordBytes (bs : Bytes) : Nat := Bytes.toNat bs.reverse

end LedgerClient.Signature
