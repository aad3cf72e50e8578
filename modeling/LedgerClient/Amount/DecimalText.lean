import LedgerClient.Amount.Decimal

/-!
# Reading decimal amounts

An amount is an optional sign and digits with at most one point among them. An underscore may stand
anywhere after the first digit and means nothing. Digits before the point must fit the mantissa.
Digits after it are taken up to the largest scale and as long as the mantissa has room; the first
that is not taken rounds the last that is, and those after it are only looked at to be digits.

A text that is no such amount may still be one in scientific notation: an amount, the letter `e`
and a whole exponent, by which the point moves.
-/

namespace LedgerClient.Decimal

open scoped Power

/-- Why a text is no amount. -/
inductive ParseError where
  /-- The text is empty. -/
  | empty
  /-- The text ends before its first digit. -/
  | noDigits
  /-- A second point. -/
  | twoPoints
  /-- An underscore before the first digit. -/
  | leadingSeparator
  /-- A character that has no place in an amount. -/
  | unknownCharacter
  /-- The digits before the point do not fit the mantissa. -/
  | tooManyDigits
  /-- Rounding the fraction away takes the digits before the point past the mantissa. -/
  | roundingOverflow
  /-- The exponent is no whole number of 32 bits. -/
  | exponentForm
  /-- The exponent is larger than the largest scale. -/
  | exponentRange (exponent : Nat)
  /-- The number does not fit the mantissa once the point is moved. -/
  | tooLarge
  deriving DecidableEq, Repr

/-- The wording of an error. -/
def ParseError.message : ParseError → String
  | .empty => "Invalid decimal: empty"
  | .noDigits => "Invalid decimal: no digits found"
  | .twoPoints => "Invalid decimal: two decimal points"
  | .leadingSeparator => "Invalid decimal: must start lead with a number"
  | .unknownCharacter => "Invalid decimal: unknown character"
  | .tooManyDigits => "Invalid decimal: overflow from too many digits"
  | .roundingOverflow => "Invalid decimal: overflow from mantissa after rounding"
  | .exponentForm => "Failed to parse"
  | .exponentRange e =>
    "Scale exceeds the maximum precision allowed: " ++ toString e ++ " > " ++ toString maxScale
  | .tooLarge => "Number exceeds maximum value that can be represented."

/-- The value of a decimal digit. -/
def digitValue? (c : Char) : Option Nat :=
  if '0' ≤ c ∧ c ≤ '9' then some (c.toNat - 48) else none

/-- The error of a character that is no digit, at a place where a point has been read. -/
def strayError (c : Char) : ParseError :=
  if c = '.' then .twoPoints
  else if c = '_' then .leadingSeparator
  else .unknownCharacter

/-- Whether the characters after the rounding digit are digits and underscores. -/
def checkRest : List Char → Except ParseError Unit
  | [] => .ok ()
  | c :: cs =>
    if c = '_' ∨ (digitValue? c).isSome then checkRest cs else .error (strayError c)

/-- A mantissa and scale rounded by the first digit that was not taken. A mantissa that has no room
for the rounded digit gives up one decimal. -/
def roundDigit (mantissa scale digit : Nat) : Except ParseError (Nat × Nat) :=
  if digit < 5 then .ok (mantissa, scale)
  else if mantissa + 1 ≤ maxMantissa then .ok (mantissa + 1, scale)
  else if scale = 0 then .error .roundingOverflow
  else .ok ((mantissa + 1 + 4) / 10, scale - 1)

/-- The mantissa from which on an underscore at the largest scale is passed over in search of the
rounding digit; below it, it ends the search without rounding. -/
def separatorThreshold : Nat := 1844674407370954906

/-- The rest of a number whose scale is the largest: its first digit rounds. -/
def finish (mantissa scale : Nat) (skipSeparators : Bool) :
    List Char → Except ParseError (Nat × Nat)
  | [] => .ok (mantissa, scale)
  | c :: cs =>
    match digitValue? c with
    | some d => do
      checkRest cs
      roundDigit mantissa scale d
    | none =>
      if c = '_' then
        if skipSeparators then finish mantissa scale skipSeparators cs
        else do
          checkRest cs
          return (mantissa, scale)
      else .error (strayError c)

/-- The mantissa and scale of an amount without its sign. `point` tells whether the point was read
and `seen` whether a digit was. -/
def scan (point seen : Bool) (mantissa scale : Nat) :
    List Char → Except ParseError (Nat × Nat)
  | [] => if seen then .ok (mantissa, scale) else .error .noDigits
  | c :: cs =>
    match digitValue? c with
    | some d =>
      let next := 10 * mantissa + d
      if maxMantissa < next then
        if point then do
          checkRest cs
          roundDigit mantissa scale d
        else .error .tooManyDigits
      else if point && scale + 1 == maxScale then
        finish next maxScale (separatorThreshold ≤ mantissa) cs
      else scan point true next (if point then scale + 1 else 0) cs
    | none =>
      if c = '.' ∧ ¬ point then scan true seen mantissa scale cs
      else if c = '_' ∧ seen then scan point seen mantissa scale cs
      else .error (strayError c)

/-- Whether a minus stands in front, and what follows the sign. -/
def splitSign : List Char → Bool × List Char
  | '-' :: rest => (true, rest)
  | '+' :: rest => (false, rest)
  | rest => (false, rest)

/-- The amount that digits with an optional sign in front spell. -/
def ofPlainChars (cs : List Char) : Except ParseError Decimal := do
  if cs.isEmpty then .error .empty
  else
    let (negative, body) := splitSign cs
    let (mantissa, scale) ← scan false false 0 0 body
    match mk? (if negative then -(mantissa : Int) else mantissa) scale with
    | some d => .ok d
    | none => .error .tooLarge

/-! ## Scientific notation -/

/-- The largest exponent that is read. -/
def maxExponent : Nat := UInt32.size - 1

/-- The whole number that digits spell, if there are any and it has at most 32 bits. -/
def exponentValue? (cs : List Char) : Option Nat :=
  let digits :=
    match cs with
    | '+' :: rest => rest
    | rest => rest
  if digits.isEmpty then none
  else do
    let n ← digits.foldlM (fun n c => (digitValue? c).map (10 * n + ·)) 0
    if n ≤ maxExponent then some n else none

/-- The number with its point moved left by `exponent` places. Where the scale has no room, decimals
are rounded off half away from zero. -/
def shiftLeft (d : Decimal) (exponent : Nat) : Except ParseError Decimal :=
  if maxScale < exponent then .error (.exponentRange exponent)
  else
    let kept := min d.scale (maxScale - exponent)
    let mantissa := d.mantissa.sign * shiftHalfUp d.mantissa.natAbs (d.scale - kept)
    match mk? mantissa (kept + exponent) with
    | some r => .ok r
    | none => .error .tooLarge

/-- The number with its point moved right by `exponent` places. -/
def shiftRight (d : Decimal) (exponent : Nat) : Except ParseError Decimal :=
  if exponent ≤ d.scale then
    .ok ⟨d.mantissa, d.scale - exponent, d.mantissa_le,
      Nat.le_trans (Nat.sub_le _ _) d.scale_le⟩
  else if maxScale < exponent then .error (.exponentRange exponent)
  else
    match mk? (d.mantissa * 10 ^ (exponent - d.scale)) 0 with
    | some r => .ok r
    | none => .error .tooLarge

/-- Whether a character introduces an exponent. -/
def isExponentMark (c : Char) : Bool := c == 'e' || c == 'E'

/-- The amount that a text in scientific notation spells. -/
def ofScientificChars (cs : List Char) : Except ParseError Decimal := do
  let base ← ofPlainChars (cs.takeWhile (! isExponentMark ·))
  match (cs.dropWhile (! isExponentMark ·)).drop 1 with
  | '-' :: digits =>
    match exponentValue? digits with
    | some e => shiftLeft base e
    | none => .error .exponentForm
  | digits =>
    match exponentValue? digits with
    | some e => shiftRight base e
    | none => .error .exponentForm

/-- The amount that a text spells. -/
def parse (s : String) : Except ParseError Decimal :=
  let cs := s.toList
  match ofPlainChars cs with
  | .ok d => .ok d
  | .error e => if cs.any isExponentMark then ofScientificChars cs else .error e

end LedgerClient.Decimal
