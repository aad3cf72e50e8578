import LedgerClient.Bytes.Basic

/-!
# Writing that may stop half way

What a writing operation appends is put out piece by piece. When a piece cannot be written the
operation stops, and the pieces before it stay. An `Emission` is the whole effect: the bytes put
out, and the failure that ended it, if any.
-/

namespace LedgerClient.Wire

/-- The bytes that an operation puts out and the failure that ended it, if any. -/
structure Emission (ε : Type) where
  bytes : Bytes
  failure : Option ε
  deriving DecidableEq

namespace Emission

variable {ε : Type}

/-- Bytes put out without failure. -/
def ofBytes (bs : Bytes) : Emission ε := ⟨bs, none⟩

/-- A failure before any byte. -/
def fail (e : ε) : Emission ε := ⟨[], some e⟩

/-- Nothing put out. -/
def empty : Emission ε := ofBytes []

/-- One operation and then another, unless the first fails. -/
def andThen (first second : Emission ε) : Emission ε :=
  match first.failure with
  | some _ => first
  | none => ⟨first.bytes ++ second.bytes, second.failure⟩

/-- Operations in turn, up to the first that fails. -/
def all (es : List (Emission ε)) : Emission ε :=
  es.foldr andThen empty

/-- A value or an error as an emission of the value's bytes. -/
def ofExcept : Except ε Bytes → Emission ε
  | .ok bs => ofBytes bs
  | .error e => fail e

/-- The bytes of an operation that did not fail. -/
def toExcept (e : Emission ε) : Except ε Bytes :=
  match e.failure with
  | none => .ok e.bytes
  | some err => .error err

/-- The same emission with its failure taken over into another type. -/
def mapError {ε' : Type} (f : ε → ε') (e : Emission ε) : Emission ε' :=
  ⟨e.bytes, e.failure.map f⟩

end Emission

end LedgerClient.Wire
