import LedgerClient.Proofs.Wire.Reading

/-!
# Decoders at other places

A decoder looks at the bytes ahead of it. Those behind it only say where it stands, and that shows
in the places that errors name. `Moved n d d'` says that the decoder `d'`, with `n` more bytes
behind it, does what `d` does, and that it names places `n` bytes further on. Decoders in sequence
are moved if each of them is (`Moved.bind`); one that asks for its offset is moved by what it does
at each offset (`Moved.offset_bind`). A decoder that is itself wherever it is moved to, is known by
what it does at the start of an input (`Portable.eq_moved`).
-/

namespace LedgerClient.Wire

/-- Errors that may name a place in the input. -/
class Placed (ε : Type) where
  /-- The error with `n` more bytes before its place. -/
  moved : (n : Nat) → ε → ε

/-- The error with `n` more bytes before its place. -/
def Error.moved (n : Nat) : Error → Error
  | .endOfInput offset needed => .endOfInput (offset + n) needed
  | .refused refusal => .refused refusal
  | .malformed offset fault => .malformed (offset + n) fault

instance : Placed Error := ⟨Error.moved⟩

/-- The place with `n` more bytes before it. -/
def Cursor.moved (n : Nat) (c : Cursor) : Cursor := ⟨c.offset + n, c.rest⟩

variable {ε ε' α β : Type} [Placed ε] [Placed ε']

/-- The result with `n` more bytes before all places in it; the value, the kind of an error and the
bytes that are left stay as they are. -/
def moved (n : Nat) : EStateM.Result ε Cursor α → EStateM.Result ε Cursor α
  | .ok x c => .ok x (c.moved n)
  | .error e c => .error (Placed.moved n e) (c.moved n)

/-- With `n` more bytes behind it, the second decoder does what the first one does. -/
def Moved (n : Nat) (d d' : DecoderOf ε α) : Prop := ∀ c, d' (c.moved n) = moved n (d c)

/-- The decoder does the same at all places. -/
def Portable (d : DecoderOf ε α) : Prop := ∀ n, Moved n d d

/-- What a decoder does at a place is what it does with the bytes ahead as its whole input. -/
theorem Portable.eq_moved {d : DecoderOf ε α} (h : Portable d) (offset : Nat) (rest : Bytes) :
    d ⟨offset, rest⟩ = moved offset (d (.start rest)) := by
  have hmoved := h offset (.start rest)
  rwa [Cursor.moved, Cursor.start, Nat.zero_add] at hmoved

variable {n : Nat} {d d' : DecoderOf ε α}

namespace Moved

/-- A value that is given has no place. -/
theorem pure (x : α) : Moved n (Pure.pure x : DecoderOf ε α) (Pure.pure x) := fun _ => rfl

/-- An error is moved with its place. -/
theorem throw (e : ε) :
    Moved n (MonadExcept.throw e : DecoderOf ε α) (MonadExcept.throw (Placed.moved n e)) :=
  fun _ => rfl

/-- Two decoders are moved one after the other. -/
theorem bind {f f' : α → DecoderOf ε β} (h : Moved n d d') (hf : ∀ x, Moved n (f x) (f' x)) :
    Moved n (d >>= f) (d' >>= f') := by
  intro c
  have hd := h c
  cases hc : d c with
  | error e c' =>
    rw [hc, moved] at hd
    rw [bind_eq_of_error hc, bind_eq_of_error hd, moved]
  | ok x c' =>
    rw [hc, moved] at hd
    rw [bind_eq_of_ok hc, bind_eq_of_ok hd, hf x c']

/-- What is made of a value has no place either. -/
theorem map {f : α → β} (h : Moved n d d') :
    Moved n (d >>= fun x => Pure.pure (f x)) (d' >>= fun x => Pure.pure (f x)) :=
  h.bind fun x => pure (f x)

/-- A place that is asked for is moved. -/
theorem offset_bind {f f' : Nat → DecoderOf ε α}
    (h : ∀ offset, Moved n (f offset) (f' (offset + n))) :
    Moved n (Decoder.offset >>= f) (Decoder.offset >>= f') :=
  fun c => h c.offset c

/-- Errors may be renamed if their names are moved as they are. -/
theorem mapError {f : ε → ε'} (h : Moved n d d')
    (hf : ∀ e, f (Placed.moved n e) = Placed.moved n (f e)) :
    Moved n (Decoder.mapError f d) (Decoder.mapError f d') := by
  intro c
  rw [Decoder.mapError, Decoder.mapError, EStateM.adaptExcept, EStateM.adaptExcept, h c]
  cases d c with
  | error e c' =>
    rw [moved, moved, ← hf]
  | ok x c' => rfl

end Moved

/-! ## The smallest decoders -/

/-- The error of a place is moved with it. -/
theorem moved_malformed (offset : Nat) (fault : Fault) :
    Moved n (Decoder.malformed offset fault : Decoder α) (Decoder.malformed (offset + n) fault) :=
  .throw _

/-- A byte is read at every place alike. -/
theorem moved_byte : Moved n Decoder.byte Decoder.byte := by
  rintro ⟨offset, rest⟩
  cases rest with
  | nil => rfl
  | cons b back =>
    show EStateM.Result.ok b (Cursor.mk (offset + n + 1) back) = .ok b ⟨offset + 1 + n, back⟩
    rw [Nat.add_right_comm]

/-- So is a byte that is only looked at. -/
theorem moved_peek : Moved n Decoder.peek Decoder.peek := by
  rintro ⟨offset, rest⟩
  cases rest with
  | nil => rfl
  | cons b back => rfl

/-- So are so many bytes, and what is missing of them. -/
theorem moved_takeSized (count : Nat) :
    Moved n (Decoder.takeSized count) (Decoder.takeSized count) := by
  intro c
  rw [Decoder.takeSized, Decoder.takeSized]
  dsimp only [Cursor.moved]
  split
  · rw [moved]
    dsimp only [Cursor.moved]
    rw [Nat.add_right_comm]
  · rfl

/-- So they are where their number is not kept with them. -/
theorem moved_take (count : Nat) : Moved n (Decoder.take count) (Decoder.take count) :=
  (moved_takeSized count).map

/-- So is a number. -/
theorem moved_number (width : Nat) : Moved n (Decoder.number width) (Decoder.number width) :=
  (moved_take width).map

end LedgerClient.Wire
