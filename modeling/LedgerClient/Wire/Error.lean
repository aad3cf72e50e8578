import LedgerClient.Amount.Fixed8
import LedgerClient.Bytes.Hex

/-!
# What can go wrong between bytes and values

Three kinds of failure are told apart. The input may end too early: then the error says where, and
how many bytes were missing for the field at hand. The bytes may be there but break the format:
then it names the place and the field. Or a value may be refused although its bytes are well
formed, when it is written or when it is read.
-/

namespace LedgerClient.Wire

/-- How bytes can break the format. -/
inductive Fault where
  /-- A count or length above the limit for its place. -/
  | countAbove (value max : Nat)
  /-- A text field that is not UTF-8. -/
  | textForm
  /-- Bytes left over after the value, whose kind is named by `subject`. -/
  | trailing (subject : String) (count : Nat)
  /-- An attribute with a usage that does not exist. -/
  | unknownUsage (tag : UInt8)
  /-- A transaction that is not an invocation. -/
  | transactionKind (tag : UInt8)
  /-- An instruction that pushes no number where a number was due. -/
  | integerPush (opcode : UInt8)
  /-- An instruction that pushes no data where data was due. -/
  | dataPush (opcode : UInt8)
  /-- A push whose operand is longer than any push may be. -/
  | pushLength (length max : Nat)
  /-- A pushed text that is not UTF-8. -/
  | pushText
  /-- An instruction that calls no service where a service call was due. -/
  | serviceCall (opcode : UInt8)
  /-- A service name that is not UTF-8. -/
  | serviceName
  deriving DecidableEq

/-- The field that a fault is about. -/
def Fault.field : Fault → String
  | .countAbove .. => "var_int"
  | .textForm => "var_string"
  | .trailing subject _ => subject
  | .unknownUsage _ => "attribute usage"
  | .transactionKind _ => "transaction type"
  | .integerPush _ => "integer push"
  | .dataPush _ => "data push"
  | .pushLength .. => "data push"
  | .pushText => "string push"
  | .serviceCall _ => "syscall"
  | .serviceName => "syscall"

/-- The wording of a fault. -/
def Fault.message : Fault → String
  | .countAbove value max => "value " ++ toString value ++ " exceeds maximum " ++ toString max
  | .textForm => "invalid UTF-8 sequence"
  | .trailing _ count => toString count ++ " trailing bytes"
  | .unknownUsage tag => "unknown usage " ++ Hex.byteLiteral tag
  | .transactionKind tag => "expected 0xd1, found " ++ Hex.byteLiteral tag
  | .integerPush opcode => "unexpected opcode " ++ Hex.byteLiteral opcode
  | .dataPush opcode => "unexpected opcode " ++ Hex.byteLiteral opcode
  | .pushLength length max =>
    "length " ++ toString length ++ " exceeds maximum " ++ toString max
  | .pushText => "invalid UTF-8 sequence"
  | .serviceCall opcode => "unexpected opcode " ++ Hex.byteLiteral opcode
  | .serviceName => "invalid UTF-8 name"

/-- Why a value is refused although its bytes are well formed. -/
inductive Refusal where
  /-- A cosigner with more allowed contracts than can be written. -/
  | tooManyContracts (count max : Nat)
  /-- A cosigner with more allowed groups than can be written. -/
  | tooManyGroups (count max : Nat)
  /-- A witness scope with unknown flags. -/
  | unknownScope (scope : UInt8)
  /-- An output that pays nothing or less. -/
  | outputValue (value : Fixed8)
  deriving DecidableEq

/-- What the refused value was meant to be. -/
def Refusal.context : Refusal → String
  | .tooManyContracts .. => "allowed contracts"
  | .tooManyGroups .. => "allowed groups"
  | .unknownScope _ => "witness scope"
  | .outputValue _ => "output value"

/-- The refused value as it is shown. -/
def Refusal.shown : Refusal → String
  | .tooManyContracts count max => toString count ++ " entries, at most " ++ toString max
  | .tooManyGroups count max => toString count ++ " entries, at most " ++ toString max
  | .unknownScope scope => Hex.byteLiteral scope
  | .outputValue value => value.toText

/-- Why bytes could not be read as a value or a value not be written. -/
inductive Error where
  /-- The input ends at `offset`, `needed` bytes before the end of the field. -/
  | endOfInput (offset needed : Nat)
  /-- The value is refused. -/
  | refused (refusal : Refusal)
  /-- The bytes from `offset` on break the format. -/
  | malformed (offset : Nat) (fault : Fault)
  deriving DecidableEq

/-- The wording of an error. -/
def Error.message : Error → String
  | .endOfInput offset needed =>
    "unexpected end of input at offset " ++ toString offset ++ ": needed " ++ toString needed ++
      " more bytes"
  | .refused refusal => "invalid data in " ++ refusal.context ++ ": " ++ refusal.shown
  | .malformed offset fault =>
    "format error at offset " ++ toString offset ++ " reading " ++ fault.field ++ ": " ++
      fault.message

end LedgerClient.Wire
