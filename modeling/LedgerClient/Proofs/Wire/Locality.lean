import LedgerClient.Proofs.Wire.Reading

/-!
# Decoders and the bytes that they leave

A decoder learns of the input what lies before the place where it stops. `Local d` says so of the
decoder `d`: it goes forward over bytes that are there, and bytes that are added at the end of the
input change nothing of what it reads, nor of an error, unless that was that the input had ended.
Decoders in sequence are local if each of them is (`Local.bind`), and so is a list of what a local
decoder reads (`local_readList`).
-/

namespace LedgerClient.Wire

variable {ε α β : Type}

namespace Cursor

/-- From the first place the second is reached by going forward over bytes that are there. -/
def Precedes (c c' : Cursor) : Prop :=
  ∃ taken, c.rest = taken ++ c'.rest ∧ c'.offset = c.offset + taken.length

/-- Every place is reached from itself. -/
theorem Precedes.refl (c : Cursor) : c.Precedes c := ⟨[], rfl, rfl⟩

/-- What is reached from a place that is reached is reached. -/
theorem Precedes.trans {a b c : Cursor} (h : a.Precedes b) (h' : b.Precedes c) : a.Precedes c := by
  obtain ⟨taken, hrest, hoffset⟩ := h
  obtain ⟨taken', hrest', hoffset'⟩ := h'
  refine ⟨taken ++ taken', ?_, ?_⟩
  · rw [hrest, hrest', List.append_assoc]
  · rw [hoffset', hoffset, List.length_append, Nat.add_assoc]

/-- What is reached from the start of an input is a place in it, before which there are as many of
its bytes as the offset says. -/
theorem Precedes.within {input : Bytes} {c : Cursor} (h : (start input).Precedes c) :
    c.offset ≤ input.length ∧ c.rest = input.drop c.offset := by
  obtain ⟨taken, hinput, hoffset⟩ := h
  obtain rfl : input = taken ++ c.rest := hinput
  obtain hoffset : c.offset = taken.length := hoffset.trans (Nat.zero_add _)
  rw [hoffset, List.length_append, List.drop_left]
  exact ⟨Nat.le_add_right _ _, rfl⟩

/-- Going forward does not lower the offset. -/
theorem Precedes.offset_le {c c' : Cursor} (h : c.Precedes c') : c.offset ≤ c'.offset := by
  obtain ⟨taken, -, hoffset⟩ := h
  exact hoffset ▸ Nat.le_add_right _ _

/-- The same place with more bytes at the end of the input. -/
def extended (more : Bytes) (c : Cursor) : Cursor := ⟨c.offset, c.rest ++ more⟩

end Cursor

/-- The decoder goes forward over bytes that are there. What it reads and how it fails is not
changed by more bytes at the end of the input, unless it fails because the input has ended. -/
structure Local (d : Decoder α) : Prop where
  read {c c' : Cursor} {x : α} : d c = .ok x c' →
    c.Precedes c' ∧ ∀ more, d (c.extended more) = .ok x (c'.extended more)
  refused {c c' : Cursor} {e : Error} : d c = .error e c' →
    c.Precedes c' ∧ ((∀ offset needed, e ≠ .endOfInput offset needed) →
      ∀ more, d (c.extended more) = .error e (c'.extended more))

/-- Where the decoder stands afterwards, be it with a value or with an error. -/
def Decoder.after (d : Decoder α) (c : Cursor) : Cursor :=
  match d c with
  | .ok _ c' => c'
  | .error _ c' => c'

/-- A local decoder goes forward, whether it fails or not. -/
theorem Local.precedes_after {d : Decoder α} (h : Local d) (c : Cursor) :
    c.Precedes (d.after c) := by
  rw [Decoder.after]
  cases hd : d c with
  | ok x c' => exact (h.read hd).1
  | error e c' => exact (h.refused hd).1

/-- Decoders in sequence fail as the first does, or as the second does after it. -/
theorem exists_of_bind_eq_error {d : DecoderOf ε α} {f : α → DecoderOf ε β} {c c' : Cursor} {e : ε}
    (h : (d >>= f) c = .error e c') :
    d c = .error e c' ∨ ∃ x c'', d c = .ok x c'' ∧ f x c'' = .error e c' := by
  cases hd : d c with
  | error e' c'' =>
    rw [bind_eq_of_error hd] at h
    cases h
    exact .inl rfl
  | ok x c'' =>
    rw [bind_eq_of_ok hd] at h
    exact .inr ⟨x, c'', rfl, h⟩

namespace Local

/-- A value that is given depends on no bytes. -/
theorem pure (x : α) : Local (Pure.pure x : Decoder α) where
  read {c _ _} hd := by
    cases hd
    exact ⟨.refl c, fun _ => rfl⟩
  refused hd := nomatch hd

/-- Nor does an error. -/
theorem throw (e : Error) : Local (MonadExcept.throw e : Decoder α) where
  read hd := nomatch hd
  refused {c _ _} hd := by
    cases hd
    exact ⟨.refl c, fun _ _ => rfl⟩

/-- Two local decoders are local one after the other: the second starts where the first has ended,
and that is not changed by more bytes. -/
theorem bind {d : Decoder α} {f : α → Decoder β} (h : Local d) (hf : ∀ x, Local (f x)) :
    Local (d >>= f) where
  read hd := by
    obtain ⟨x, c'', hx, hy⟩ := exists_of_bind_eq_ok hd
    obtain ⟨hfirst, hmore⟩ := h.read hx
    obtain ⟨hsecond, hmore'⟩ := (hf x).read hy
    exact ⟨hfirst.trans hsecond, fun more => (bind_eq_of_ok (hmore more)).trans (hmore' more)⟩
  refused hd := by
    obtain herror | ⟨x, c'', hx, herror⟩ := exists_of_bind_eq_error hd
    · obtain ⟨hfirst, hmore⟩ := h.refused herror
      exact ⟨hfirst, fun he more => bind_eq_of_error (hmore he more)⟩
    · obtain ⟨hfirst, hmore⟩ := h.read hx
      obtain ⟨hsecond, hmore'⟩ := (hf x).refused herror
      exact ⟨hfirst.trans hsecond,
        fun he more => (bind_eq_of_ok (hmore more)).trans (hmore' he more)⟩

/-- So is what is made of a value. -/
theorem map {d : Decoder α} {f : α → β} (h : Local d) :
    Local (d >>= fun x => Pure.pure (f x)) :=
  h.bind fun x => pure (f x)

/-- What is sent only under a condition is read locally if it is read. -/
theorem bind_ite {c : Prop} [Decidable c] {d : Decoder α} {y : α} {f : α → Decoder β}
    (h : Local d) (hf : ∀ x, Local (f x)) :
    Local (if c then d >>= f else Pure.pure y >>= f) := by
  split
  · exact h.bind hf
  · exact (pure y).bind hf

end Local

/-! ## The smallest decoders -/

/-- An error of a place that was read depends on nothing else. -/
theorem local_malformed (offset : Nat) (fault : Fault) :
    Local (Decoder.malformed offset fault : Decoder α) := .throw _

/-- The place does not depend on the bytes behind it. -/
theorem local_offset : Local (Decoder.offset : Decoder Nat) where
  read {c _ _} hd := by
    cases hd
    exact ⟨.refl c, fun _ => rfl⟩
  refused hd := nomatch hd

/-- One byte is read from the front, and if there is none the input has ended. -/
theorem local_byte : Local Decoder.byte where
  read := by
    rintro ⟨offset, _ | ⟨b, back⟩⟩ c' x hd
    · cases hd
    · cases hd
      exact ⟨⟨[b], rfl, rfl⟩, fun _ => rfl⟩
  refused := by
    rintro ⟨offset, _ | ⟨b, back⟩⟩ c' e hd
    · cases hd
      exact ⟨.refl _, fun he => absurd rfl (he _ _)⟩
    · cases hd

/-- So it is if the byte is only looked at. -/
theorem local_peek : Local Decoder.peek where
  read := by
    rintro ⟨offset, _ | ⟨b, back⟩⟩ c' x hd
    · cases hd
    · cases hd
      exact ⟨.refl _, fun _ => rfl⟩
  refused := by
    rintro ⟨offset, _ | ⟨b, back⟩⟩ c' e hd
    · cases hd
      exact ⟨.refl _, fun he => absurd rfl (he _ _)⟩
    · cases hd

/-- So many bytes are read from the front, and if there are fewer the input has ended. -/
theorem local_takeSized (n : Nat) : Local (Decoder.takeSized n) where
  read {c c' x} hd := by
    obtain ⟨hrest, hoffset⟩ := takeSized_eq_ok_iff.1 hd
    refine ⟨⟨x.1, hrest, by rw [hoffset, x.2]⟩, fun more => takeSized_eq_ok_iff.2 ⟨?_, hoffset⟩⟩
    exact (congrArg (· ++ more) hrest).trans (List.append_assoc ..)
  refused hd := by
    obtain ⟨-, rfl, rfl⟩ := takeSized_eq_error_iff.1 hd
    exact ⟨.refl _, fun he => absurd rfl (he _ _)⟩

/-- So they are where their number is not kept with them. -/
theorem local_take (n : Nat) : Local (Decoder.take n) := (local_takeSized n).map

/-- At a place in an input the next bytes are a part of the input, if they do not end behind it;
else as many are missing as they end behind it. -/
theorem take_of_within {input : Bytes} {c : Cursor} (hplace : c.offset ≤ input.length)
    (hrest : c.rest = input.drop c.offset) (n : Nat) :
    Decoder.take n c =
      if c.offset + n ≤ input.length then
        .ok ((input.drop c.offset).take n) ⟨c.offset + n, input.drop (c.offset + n)⟩
      else .error (.endOfInput c.offset (c.offset + n - input.length)) c := by
  obtain ⟨offset, rest⟩ := c
  obtain rfl : rest = input.drop offset := hrest
  dsimp only at hplace ⊢
  have hleft : (input.drop offset).length = input.length - offset := List.length_drop
  split
  · next hn =>
    have hlength : ((input.drop offset).take n).length = n := List.length_take_of_le (by omega)
    have hread := (decides_take hlength).read offset ((input.drop offset).drop n)
    rwa [List.take_append_drop, List.drop_drop, hlength] at hread
  · next hn =>
    have hfew : (input.drop offset).length < n := by omega
    have hneeded : n - (input.drop offset).length = offset + n - input.length := by omega
    have hmissing : Decoder.takeSized n ⟨offset, input.drop offset⟩ =
        .error (.endOfInput offset (offset + n - input.length)) ⟨offset, input.drop offset⟩ :=
      takeSized_eq_error_iff.2 ⟨hfew, by rw [hneeded], rfl⟩
    rw [Decoder.take, bind_eq_of_error hmissing]

/-- A number is read from the bytes of its width. -/
theorem local_number (width : Nat) : Local (Decoder.number width) := (local_take width).map

/-! ## Counts and what they count -/

/-- How many bytes a count has is told by the first of them. -/
theorem local_readBounded (max : Nat) : Local (Count.readBounded max) := by
  have hmark : ∀ mark, Local (Count.readFrom mark) := by
    intro mark
    rw [Count.readFrom]
    split
    · exact local_number 2
    split
    · exact local_number 4
    split
    · exact local_number 8
    · exact .pure _
  refine local_offset.bind fun offset => local_byte.bind fun mark =>
    (hmark mark).bind fun value => ?_
  split
  · exact .pure _
  · exact local_malformed _ _

/-- So it is where the bound is not kept with the count. -/
theorem local_read (max : Nat) : Local (Count.read max) := (local_readBounded max).map

/-- Counted bytes end where their count says. -/
theorem local_readCountedBounded (max : Nat) : Local (Counted.readBounded max) :=
  (local_readBounded max).bind fun ⟨n, _⟩ => (local_takeSized n).bind fun ⟨_, _⟩ => .pure _

/-- So they do where the bound is not kept with them. -/
theorem local_readCounted (max : Nat) : Local (Counted.read max) :=
  (local_readCountedBounded max).map

/-- Whether counted bytes are a text depends on them alone. -/
theorem local_readText (max : Nat) : Local (Counted.readText max) := by
  refine local_offset.bind fun offset => (local_readCounted max).bind fun bs => ?_
  split
  · exact .pure _
  · exact local_malformed _ _

/-- Items one after another are read locally if each is. -/
theorem local_collect {item : Decoder α} (h : Local item) (count : Nat) (acc : List α) :
    Local (Decoder.collect item count acc) := by
  induction count generalizing acc with
  | zero => exact .pure _
  | succ count ih => exact h.bind fun x => ih (x :: acc)

/-- So is a list of them. -/
theorem local_readList {item : Decoder α} (h : Local item) (max : Nat) :
    Local (Counted.readList item max) :=
  (local_read max).bind fun n => local_collect h n []

end LedgerClient.Wire
