import LedgerClient.Wire.Error

/-!
# Reading bytes

A `Cursor` is a place in an input: how many bytes lie before it and which bytes come after it. A
`Decoder` moves a cursor forward and gives a value or an error; after an error the cursor stands
where the last field that could be read ended, so that a caller can go on from there.

The smallest decoders take a fixed number of bytes and say, when too few are left, how many are
missing. All others are built from them by sequencing, so that no decoder looks at bytes behind the
ones it takes.
-/

namespace LedgerClient.Wire

/-- A place in an input. -/
structure Cursor where
  /-- The number of bytes before this place. -/
  offset : Nat
  /-- The bytes after this place. -/
  rest : Bytes
  deriving DecidableEq

/-- The beginning of an input. -/
def Cursor.start (input : Bytes) : Cursor := ⟨0, input⟩

/-- Whether no bytes are left. -/
def Cursor.atEnd (c : Cursor) : Bool := c.rest.isEmpty

/-- A reader of values with errors of type `ε`. -/
abbrev DecoderOf (ε α : Type) := EStateM ε Cursor α

/-- A reader of values with the errors of this format. -/
abbrev Decoder (α : Type) := DecoderOf Error α

namespace Decoder

/-- The same reader with its errors taken over into another type. -/
def mapError {ε ε' α : Type} (f : ε → ε') (d : DecoderOf ε α) : DecoderOf ε' α :=
  EStateM.adaptExcept f d

/-- The number of bytes already read. -/
def offset {ε : Type} : DecoderOf ε Nat := fun c => .ok c.offset c

/-- The failure of the bytes at `offset` to follow the format. -/
def malformed {α : Type} (offset : Nat) (fault : Fault) : Decoder α :=
  throw (.malformed offset fault)

/-- The next `n` bytes, with the fact that there are as many. -/
def takeSized (n : Nat) : Decoder { bs : Bytes // bs.length = n } := fun c =>
  match h : Bytes.splitAt? n c.rest with
  | some (front, back) =>
    .ok ⟨front, (Bytes.splitAt?_eq_some_iff.1 h).2⟩ ⟨c.offset + n, back⟩
  | none => .error (.endOfInput c.offset (n - c.rest.length)) c

/-- The next `n` bytes. -/
def take (n : Nat) : Decoder Bytes := do
  return (← takeSized n).1

/-- The next byte. -/
def byte : Decoder UInt8 := fun c =>
  match c.rest with
  | b :: back => .ok b ⟨c.offset + 1, back⟩
  | [] => .error (.endOfInput c.offset 1) c

/-- The next byte, without moving past it. -/
def peek : Decoder UInt8 := fun c =>
  match c.rest with
  | b :: _ => .ok b c
  | [] => .error (.endOfInput c.offset 1) c

/-- A number of `width` bytes, least significant first. -/
def number (width : Nat) : Decoder Nat := do
  return Bytes.toNat (← take width)

/-- All bytes that are left. -/
def toEnd : Decoder Bytes := fun c =>
  .ok c.rest ⟨c.offset + c.rest.length, []⟩

/-- `count` values in a row; those already read stand in `acc`, last first. -/
def collect {ε α : Type} (item : DecoderOf ε α) : Nat → List α → DecoderOf ε (List α)
  | 0, acc => pure acc.reverse
  | count + 1, acc => do
    let x ← item
    collect item count (x :: acc)

/-- `count` values in a row. -/
def repeated {ε α : Type} (item : DecoderOf ε α) (count : Nat) : DecoderOf ε (List α) :=
  collect item count []

/-- The value that a whole input encodes; bytes left over are an error, in whose text `subject`
names the kind of the value. -/
def run {α : Type} (subject : String) (d : Decoder α) (input : Bytes) : Except Error α :=
  match EStateM.run d (.start input) with
  | .error e _ => .error e
  | .ok x c =>
    if c.atEnd then .ok x
    else .error (.malformed c.offset (.trailing subject c.rest.length))

end Decoder

end LedgerClient.Wire
