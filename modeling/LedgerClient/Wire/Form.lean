import LedgerClient.Wire.Cursor

/-!
# Types with a form on the wire

What sending values of a type takes: their bytes, if the value can be sent at all, the number of
those bytes, which can be told without them, and a decoder.
-/

namespace LedgerClient.Wire

/-- The form of a type on the wire. -/
class Form (α : Type) where
  /-- The value of the next bytes. -/
  decode : Decoder α
  /-- The bytes of a value. -/
  encode : α → Except Error Bytes
  /-- The number of bytes of a value. -/
  size : α → Nat

end LedgerClient.Wire
