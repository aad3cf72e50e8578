import LedgerClient.Number.Binary64
import LedgerClient.Toml.Scanner
import LedgerClient.Toml.Value

/-!
# Numbers and points in time

A word that starts like a number is a point in time, a number with a point or an exponent, or a
whole number, tried in this order. Underscores stand between digits. Whole numbers have 64 bits and
a sign; a number with a point must not round to infinity.
-/

namespace LedgerClient.Toml

open scoped Power

namespace Reader

/-- The first of two readers, or the second where the first fails. -/
def orElse {α : Type} (first second : Reader α) : Reader α := fun cs =>
  match first cs with
  | some result => some result
  | none => second cs

/-- A value if it can be read, and nothing taken if not. -/
def optional {α : Type} (d : Reader α) : Reader (Option α) := fun cs =>
  match d cs with
  | some (x, rest) => some (some x, rest)
  | none => some (none, cs)

/-! ## Digits -/

/-- The rest of digits with single underscores between them, and the digits before it, last
first. -/
def moreDigits (isDigit : Char → Bool) (acc : List Char) : Reader (List Char)
  | [] => some (acc.reverse, [])
  | '_' :: c :: cs => if isDigit c then moreDigits isDigit (c :: acc) cs else none
  | c :: cs =>
    if isDigit c then moreDigits isDigit (c :: acc) cs
    else if c = '_' then none
    else some (acc.reverse, c :: cs)

/-- At least one digit, with single underscores between digits. -/
def digits (isDigit : Char → Bool) : Reader (List Char)
  | [] => none
  | c :: cs => if isDigit c then moreDigits isDigit [c] cs else none

/-- Decimal digits without a zero in front of others. -/
def wholeDigits : Reader (List Char)
  | '0' :: cs => some (['0'], cs)
  | cs => digits Char.isDigit cs

/-- A sign, if there is one; true for minus. -/
def sign : Reader Bool
  | '-' :: cs => some (true, cs)
  | '+' :: cs => some (false, cs)
  | cs => some (false, cs)

/-- The number that digits spell in a base of at most sixteen. -/
def spelled (base : Nat) (ds : List Char) : Nat :=
  ds.foldl (fun n c => base * n + (hexValue? c).getD 0) 0

/-- A whole number of 64 bits. -/
def integerOf (negative : Bool) (magnitude : Nat) : Reader Node :=
  let value : Int := if negative then -(magnitude : Int) else magnitude
  if -2 ^ (63 : Nat) ≤ value ∧ value < 2 ^ (63 : Nat) then pure (.integer value) else failure

/-- A whole number, decimal or in a base that its first two characters name. -/
def integer : Reader Node := do
  if ← accept ['0', 'x'] then
    integerOf false (spelled 16 (← digits fun c => (hexValue? c).isSome))
  else if ← accept ['0', 'o'] then
    integerOf false (spelled 8 (← digits fun c => '0' ≤ c && c ≤ '7'))
  else if ← accept ['0', 'b'] then
    integerOf false (spelled 2 (← digits fun c => c == '0' || c == '1'))
  else
    let negative ← sign
    integerOf negative (spelled 10 (← wholeDigits))

/-! ## Numbers with a point or an exponent -/

/-- Whether `significand · 10 ^ exponent` rounds to infinity. The number of digits before the point
tells, except near the largest number of the format. -/
def roundsToInfinity (significand : Nat) (exponent : Int) : Bool :=
  let place := (toString significand).length + exponent
  if significand = 0 ∨ place < 300 then false
  else if 310 < place then true
  else
    let (num, den) :=
      if 0 ≤ exponent then (significand * 10 ^ exponent.toNat, 1)
      else (significand, 10 ^ (-exponent).toNat)
    (Binary64.nearest? num den).isNone

/-- The digits behind a point. -/
def fraction : Reader (List Char) := do
  expect '.'
  digits Char.isDigit

/-- The exponent behind its letter. -/
def exponent : Reader Int := do
  if ← accept ['e'] then pure () else expect 'E'
  let negative ← sign
  let n := spelled 10 (← digits Char.isDigit)
  return if negative then -(n : Int) else n

/-- A number with a point, an exponent or both. -/
def pointed : Reader Node := do
  let negative ← sign
  let whole ← wholeDigits
  let fraction ← optional fraction
  let exponent ← if fraction.isSome then optional exponent else some <$> exponent
  let ds := whole ++ fraction.getD []
  let power := exponent.getD 0 - (fraction.getD []).length
  if ! negative && roundsToInfinity (spelled 10 ds) power then failure
  else
    let text := (if negative then ['-'] else []) ++ ds ++ 'e' :: (toString power).toList
    return .float (String.ofList text)

/-- One of the two numbers that have a name. -/
def named : Reader Node := do
  let _ ← sign
  if ← accept ['i', 'n', 'f'] then return .float "inf"
  else if ← accept ['n', 'a', 'n'] then return .float "nan"
  else failure

/-! ## Points in time -/

/-- The number of exactly `count` digits, if it lies within bounds. -/
def digitsWithin (count low high : Nat) : Reader Nat := fun cs =>
  let ds := cs.take count
  let n := spelled 10 ds
  if ds.length = count ∧ ds.all Char.isDigit ∧ low ≤ n ∧ n ≤ high then some (n, cs.drop count)
  else none

/-- The number of days of a month. -/
def daysOf (year month : Nat) : Nat :=
  if month = 2 then
    if year % 4 = 0 ∧ (year % 100 ≠ 0 ∨ year % 400 = 0) then 29 else 28
  else if month = 4 ∨ month = 6 ∨ month = 9 ∨ month = 11 then 30
  else 31

/-- A day. -/
def date : Reader Unit := do
  let year ← digitsWithin 4 0 9999
  expect '-'
  let month ← digitsWithin 2 1 12
  expect '-'
  let _ ← digitsWithin 2 1 (daysOf year month)

/-- A time of day. -/
def time : Reader Unit := do
  let _ ← digitsWithin 2 0 23
  expect ':'
  let _ ← digitsWithin 2 0 59
  expect ':'
  let _ ← digitsWithin 2 0 60
  if ← accept ['.'] then
    let ds ← takeWhile Char.isDigit
    guard (! ds.isEmpty)

/-- The distance of a local time from universal time. -/
def offset : Reader Unit := do
  if ← accept ['Z'] then return
  else if ← accept ['z'] then return
  else
    if ← accept ['+'] then pure () else expect '-'
    let _ ← digitsWithin 2 0 23
    expect ':'
    let _ ← digitsWithin 2 0 59

/-- The time of a day, behind what divides it from the day. -/
def timeOfDay : Reader Unit := do
  if ← accept ['T'] then pure ()
  else if ← accept ['t'] then pure ()
  else expect ' '
  time
  let _ ← optional offset

/-- A day, a time, or both. -/
def moment : Reader Unit :=
  orElse (do date; let _ ← optional timeOfDay) time

/-- A point in time as it is written. -/
def dateTime : Reader Node := fun cs =>
  match moment cs with
  | some ((), rest) => some (.dateTime (String.ofList (cs.take (cs.length - rest.length))), rest)
  | none => none

/-- A number or a point in time. -/
def number : Reader Node :=
  orElse dateTime (orElse pointed (orElse named integer))

end Reader

end LedgerClient.Toml
