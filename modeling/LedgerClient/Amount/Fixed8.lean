import LedgerClient.Amount.DecimalText
import LedgerClient.Bytes.Basic
import LedgerClient.Text.Blank

/-!
# Amounts with eight decimals

On the ledger an amount is a signed number of 64 bits that counts hundred-millionths. A decimal is
such an amount exactly if it has at most eight decimals once zeros at its end are dropped, and if
its count of hundred-millionths fits; nothing is ever rounded (`Fixed8.ofDecimal`). A text is read
as a decimal first, blank characters at its ends aside.
-/

namespace LedgerClient

open scoped Power

/-- An amount counted in hundred-millionths. -/
structure Fixed8 where
  raw : Int
  min_le : -2 ^ (63 : Nat) ≤ raw
  lt_max : raw < 2 ^ (63 : Nat)
  deriving DecidableEq

namespace Fixed8

/-- The number of decimals. -/
def decimals : Nat := 8

/-- The number of hundred-millionths in one. -/
def factor : Int := 100000000

/-- Why a decimal is no amount of this kind. -/
inductive RangeError where
  /-- The decimal has more than eight decimals. -/
  | tooManyDecimals (value : Decimal)
  /-- The count of hundred-millionths does not fit 64 bits. -/
  | outOfRange (value : Decimal)
  deriving DecidableEq

/-- The wording of an error. -/
def RangeError.message : RangeError → String
  | .tooManyDecimals v => "amount " ++ v.toText ++ " has more than 8 decimals"
  | .outOfRange v => "amount " ++ v.toText ++ " is out of range"

/-- The amount with the given count of hundred-millionths, if it fits. -/
def ofRaw? (raw : Int) : Option Fixed8 :=
  if h : -2 ^ (63 : Nat) ≤ raw ∧ raw < 2 ^ (63 : Nat) then some ⟨raw, h.1, h.2⟩ else none

/-- Nothing. -/
def zero : Fixed8 := ⟨0, by decide, by decide⟩

instance : Inhabited Fixed8 := ⟨zero⟩

/-- The amount equal to a decimal. The product may have lost decimals when it is too large for the
mantissa, but then it is too large for an amount as well. -/
def ofDecimal (d : Decimal) : Except RangeError Fixed8 :=
  let value := d.normalize
  if decimals < value.scale then .error (.tooManyDecimals value)
  else
    match (value.times? factor).bind (ofRaw? ·.wholePart) with
    | some a => .ok a
    | none => .error (.outOfRange value)

/-- Every amount fits the mantissa of a decimal. -/
theorem raw_natAbs_le (a : Fixed8) : a.raw.natAbs ≤ Decimal.maxMantissa := by
  have h₁ := a.min_le
  have h₂ := a.lt_max
  simp only [Decimal.maxMantissa]
  omega

/-- The decimal equal to an amount, without zeros at its end. -/
def toDecimal (a : Fixed8) : Decimal :=
  Decimal.normalize ⟨a.raw, decimals, a.raw_natAbs_le, by decide⟩

/-- The amount in plain digits. -/
def toText (a : Fixed8) : String := a.toDecimal.toText

/-- Why a text is no amount of this kind. -/
inductive TextError where
  /-- The text, here given as it stands, is no decimal. -/
  | form (text : String) (e : Decimal.ParseError)
  /-- The decimal is no amount of this kind. -/
  | range (e : RangeError)
  deriving DecidableEq

/-- The amount that a text spells, blank characters at its ends aside. -/
def parse (s : String) : Except TextError Fixed8 :=
  match Decimal.parse (Text.trim s) with
  | .error e => .error (.form s e)
  | .ok d => (ofDecimal d).mapError .range

/-- The number of bytes of an amount. -/
def size : Nat := 8

/-- The eight bytes of an amount, in two's complement. -/
def encode (a : Fixed8) : Bytes :=
  Bytes.littleEndian size (a.raw % 2 ^ (64 : Nat)).toNat

/-- The amount whose two's complement is given. -/
def ofWord (word : Nat) : Fixed8 :=
  (ofRaw? ((word : Int).bmod (2 ^ (64 : Nat)))).getD zero

end Fixed8

end LedgerClient
