import LedgerClient.Limits
import LedgerClient.Text.Base58Check
import LedgerClient.Wire.Error

/-!
# Why a ledger value is refused

Every constructor of a ledger value checks what it is given. The causes fall into four categories:
texts that spell no value, numbers out of range, values that may not be combined as asked, and
bytes that cannot be read. The category opens the wording of an error.
-/

namespace LedgerClient.Ledger

/-- The four kinds of error. -/
inductive Category where
  | validation
  | format
  | data
  | wire
  deriving DecidableEq, Repr

/-- What an amount is meant for. -/
inductive Purpose where
  /-- The amount that an unspent output holds. -/
  | unspent
  /-- The amount that an output pays. -/
  | output
  deriving DecidableEq, Repr

/-- The word for a purpose. -/
def Purpose.name : Purpose → String
  | .unspent => "utxo"
  | .output => "output"

/-- Why a ledger value is refused. -/
inductive Error where
  /-- The text of a hash of `size` bytes has the wrong length. -/
  | hashTextLength (size length : Nat)
  /-- The text of a hash of `size` bytes is not hexadecimal. -/
  | hashText (size : Nat) (e : Hex.Error)
  /-- A hash of `size` bytes made from a different number of bytes. -/
  | hashLength (size length : Nat)
  /-- The text of an address holds no payload. -/
  | addressText (address : String) (e : Base58Check.Error)
  /-- The payload of an address has the wrong length. -/
  | addressLength
  /-- The payload of an address has another version. -/
  | addressVersion (version : UInt8)
  /-- The text of an amount is no decimal. -/
  | amountText (text : String) (e : Decimal.ParseError)
  /-- The text of a byte parameter is not hexadecimal. -/
  | parameterHex (e : Hex.Error)
  /-- The text of an integer parameter is empty, its sign aside. -/
  | parameterIntegerEmpty
  /-- The text of an integer parameter is not made of digits. -/
  | parameterIntegerDigit
  /-- An amount has too many decimals or is too large. -/
  | amountRange (e : Fixed8.RangeError)
  /-- An amount with a purpose has too many decimals or is too large. -/
  | purposeRange (purpose : Purpose) (e : Fixed8.RangeError)
  /-- An amount with a purpose is zero or negative. -/
  | notPositive (purpose : Purpose) (value : Decimal)
  /-- A witness is added that names no script hash. -/
  | witnessWithoutHash
  /-- There is no hash slot with this number. -/
  | noHashSlot (slot : UInt8)
  /-- There is no remark slot with this number. -/
  | noRemarkSlot (slot : UInt8)
  /-- The data of an attribute has a length that its usage does not admit. -/
  | attributeLength (length : Nat) (tag : UInt8)
  /-- More attributes than a transaction can hold. -/
  | tooManyAttributes
  /-- An invocation without a script. -/
  | noScript
  /-- Bytes that cannot be read, or a value that cannot be written. -/
  | wire (e : Wire.Error)
  deriving DecidableEq

namespace Error

/-- The word for a hash of the given size. -/
def hashNoun (size : Nat) : String :=
  if size = Limits.scriptHashSize then "script hash" else "hash"

/-- The category of an error. -/
def category : Error → Category
  | .hashTextLength .. | .hashText .. | .hashLength .. => .format
  | .addressText .. | .addressLength | .addressVersion _ => .format
  | .amountText .. | .parameterHex _ | .parameterIntegerEmpty | .parameterIntegerDigit => .format
  | .amountRange _ => .data
  | .purposeRange .. | .notPositive .. | .witnessWithoutHash => .validation
  | .noHashSlot _ | .noRemarkSlot _ | .attributeLength .. => .validation
  | .tooManyAttributes | .noScript => .validation
  | .wire _ => .wire

/-- The wording of an error after its category. -/
def detail : Error → String
  | .hashTextLength size length =>
    hashNoun size ++ " hex must be " ++ toString (2 * size) ++ " characters, got " ++
      toString length
  | .hashText size e => "invalid " ++ hashNoun size ++ " hex: " ++ e.message
  | .hashLength size length =>
    hashNoun size ++ " must be " ++ toString size ++ " bytes, got " ++ toString length
  | .addressText address e => "invalid address " ++ address ++ ": " ++ e.message
  | .addressLength => "Invalid address length"
  | .addressVersion version => "Invalid address version " ++ Hex.byteLiteral version
  | .amountText text e => "invalid amount \x27" ++ text ++ "\x27: " ++ e.message
  | .parameterHex e => "invalid hex parameter: " ++ e.message
  | .parameterIntegerEmpty => "invalid integer: cannot parse integer from empty string"
  | .parameterIntegerDigit => "invalid integer: invalid digit found in string"
  | .amountRange e => e.message
  | .purposeRange purpose e => purpose.name ++ " value: Invalid data: " ++ e.message
  | .notPositive purpose value =>
    purpose.name ++ " value must be positive, got " ++ value.toText
  | .witnessWithoutHash =>
    "the script hash of the given witness is empty, set the script hash explicitly"
  | .noHashSlot slot => "no hash attribute slot " ++ toString slot.toNat
  | .noRemarkSlot slot => "no remark attribute slot " ++ toString slot.toNat
  | .attributeLength length tag =>
    toString length ++ " bytes is not a valid data length for attribute usage " ++
      Hex.byteLiteral tag
  | .tooManyAttributes =>
    "a transaction can hold at most " ++ toString Limits.maxAttributes ++ " attributes"
  | .noScript => "an invocation transaction needs a script"
  | .wire e => e.message

/-- The wording of an error. -/
def message (e : Error) : String :=
  match e.category with
  | .validation => "Validation error: " ++ e.detail
  | .format => "Invalid format: " ++ e.detail
  | .data => "Invalid data: " ++ e.detail
  | .wire => e.detail

/-- The error of an amount's text. -/
def ofAmountText : Fixed8.TextError → Error
  | .form text e => .amountText text e
  | .range e => .amountRange e

end Error

end LedgerClient.Ledger
