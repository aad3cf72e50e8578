import LedgerClient.Amount.Decimal
import LedgerClient.Bytes.Hex
import LedgerClient.Hash.Sha256
import LedgerClient.Json.Value

/-!
# Inspecting values

A value can be looked at as JSON. In contrast to the forms in which values are exchanged, this shows
what follows from a value beside what it holds, and is not read back: absent parts are null, numbers
that may need more than 32 bits are texts, and of many bytes only their number and their hash is
shown.
-/

namespace LedgerClient

/-- Values that can be looked at. -/
class Inspect (α : Type) where
  inspect : α → Json

namespace Inspect

/-- A member of what is shown. -/
def the {α : Type} [Inspect α] (name : String) (x : α) : String × Json := (name, inspect x)

/-- A number as a text. -/
def digits (n : Int) : Json := .string (toString n)

/-- The largest number of bytes that are shown in full. -/
def maxShown : Nat := 4096

/-- Bytes in full, or their number and their hash. -/
def bytes (bs : Bytes) : Json :=
  let length := bs.length
  if length ≤ maxShown then .string (Hex.encode bs)
  else .string ("#" ++ toString length ++ ":" ++ Hex.encode (Hash.sha256 bs))

instance : Inspect Json := ⟨id⟩

instance : Inspect String := ⟨.string⟩

instance : Inspect Bool := ⟨.bool⟩

instance : Inspect Nat := ⟨fun n => .integer n⟩

instance : Inspect Int := ⟨.integer⟩

instance : Inspect UInt8 := ⟨fun n => .integer n.toNat⟩

instance : Inspect UInt16 := ⟨fun n => .integer n.toNat⟩

instance : Inspect UInt32 := ⟨fun n => .integer n.toNat⟩

instance : Inspect Decimal := ⟨fun d => .string d.toText⟩

instance (priority := low) {α : Type} [Inspect α] : Inspect (List α) :=
  ⟨fun xs => .array (xs.map inspect)⟩

instance {α : Type} [Inspect α] : Inspect (Option α) := ⟨fun x => (x.map inspect).getD .null⟩

instance : Inspect Bytes := ⟨bytes⟩

/-- An order is shown by the sign of the difference. -/
instance : Inspect Ordering where
  inspect
    | .lt => .integer (-1)
    | .eq => .integer 0
    | .gt => .integer 1

end Inspect

end LedgerClient
