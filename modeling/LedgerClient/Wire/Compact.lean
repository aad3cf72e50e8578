import LedgerClient.Wire.Cursor

/-!
# Counts and what they count

A count is written in one byte if it is below 253; larger ones are written in two, four or eight
bytes after the marks 253, 254 and 255, in the shortest of these forms that holds them. When read,
a longer form than needed is accepted. A count stands before bytes, before the UTF-8 form of a text
and before the entries of a list, and wherever one is read there is a limit on it.

For each form there are three definitions side by side: `write`, `read` and `size`, the number of
bytes that `write` gives.
-/

namespace LedgerClient.Wire

namespace Count

/-- The shortest form of a count below 2⁶⁴. -/
def write (n : Nat) : Bytes :=
  if n < 0xFD then [UInt8.ofNat n]
  else if n ≤ 0xFFFF then 0xFD :: Bytes.littleEndian 2 n
  else if n ≤ 0xFFFFFFFF then 0xFE :: Bytes.littleEndian 4 n
  else 0xFF :: Bytes.littleEndian 8 n

/-- The number of bytes of the shortest form. -/
def size (n : Nat) : Nat :=
  if n < 0xFD then 1
  else if n ≤ 0xFFFF then 3
  else if n ≤ 0xFFFFFFFF then 5
  else 9

/-- The count that starts with the given byte. -/
def readFrom (mark : UInt8) : Decoder Nat :=
  if mark = 0xFD then Decoder.number 2
  else if mark = 0xFE then Decoder.number 4
  else if mark = 0xFF then Decoder.number 8
  else pure mark.toNat

/-- A count of at most `max`, with the fact that it is. -/
def readBounded (max : Nat) : Decoder { n : Nat // n ≤ max } := do
  let offset ← Decoder.offset
  let value ← readFrom (← Decoder.byte)
  if h : value ≤ max then return ⟨value, h⟩
  else Decoder.malformed offset (.countAbove value max)

/-- A count of at most `max`. -/
def read (max : Nat) : Decoder Nat := do
  return (← readBounded max).1

/-- The size of a count is the number of its bytes. -/
theorem length_write (n : Nat) : (write n).length = size n := by
  simp only [write, size]
  split
  · rfl
  · split
    · simp
    · split <;> simp

end Count

/-! ## Counted bytes and texts -/

namespace Counted

/-- Bytes after their number. -/
def write (bs : Bytes) : Bytes := Count.write bs.length ++ bs

/-- The number of bytes that `write` gives. -/
def size (bs : Bytes) : Nat := Count.size bs.length + bs.length

/-- At most `max` bytes after their number, with the fact that there are no more. -/
def readBounded (max : Nat) : Decoder { bs : Bytes // bs.length ≤ max } := do
  let ⟨n, hn⟩ ← Count.readBounded max
  let ⟨bs, hbs⟩ ← Decoder.takeSized n
  return ⟨bs, hbs.symm ▸ hn⟩

/-- At most `max` bytes after their number. -/
def read (max : Nat) : Decoder Bytes := do
  return (← readBounded max).1

/-- A text after the number of bytes of its UTF-8 form. -/
def writeText (s : String) : Bytes := write (Bytes.ofText s)

/-- A text of at most `max` bytes after their number. -/
def readText (max : Nat) : Decoder String := do
  let offset ← Decoder.offset
  let bs ← read max
  match Bytes.toText? bs with
  | some s => return s
  | none => Decoder.malformed offset .textForm

/-- The size of counted bytes is the number of bytes that are sent for them. -/
theorem length_write (bs : Bytes) : (write bs).length = size bs := by
  simp [write, size, Count.length_write]

/-! ## Counted lists -/

/-- The entries of a list after their number. -/
def writeList {α : Type} (item : α → Bytes) (xs : List α) : Bytes :=
  Count.write xs.length ++ xs.flatMap item

/-- The number of bytes that `writeList` gives, from the sizes of the entries. -/
def listSize {α : Type} (itemSize : α → Nat) (xs : List α) : Nat :=
  xs.foldl (fun total x => total + itemSize x) (Count.size xs.length)

/-- At most `max` entries after their number. -/
def readList {α : Type} (item : Decoder α) (max : Nat) : Decoder (List α) := do
  Decoder.repeated item (← Count.read max)

end Counted

end LedgerClient.Wire
