import LedgerClient.Proofs.Wire.Reading

/-!
# Inputs that end too early

`Incremental eof d` says that the decoder `d` takes its bytes one after another: what it reads does
not depend on the bytes behind, and if the bytes it reads are cut short it fails with an error `eof`
that says where the input ended and asks for some, but not for more than were cut off. Decoders in
sequence are incremental if each of them is (`Incremental.bind`). So an input that is read to its
end is never read when its end is cut off, and the error asks for no more than is missing
(`Incremental.reportsCuts`).
-/

namespace LedgerClient.Wire

variable {ε ε' α β : Type}

/-- The input ended early, at `last` or before, for want of at least one byte and of `missing` bytes
at most. -/
def EndsEarly (eof : Nat → Nat → ε) (last missing : Nat) (r : EStateM.Result ε Cursor α) : Prop :=
  ∃ offset needed c, r = .error (eof offset needed) c ∧ offset ≤ last ∧ 1 ≤ needed ∧
    needed ≤ missing

/-- At `offset` the decoder takes the bytes as `x`, whatever follows, and misses those that are cut
off. -/
structure Takes (eof : Nat → Nat → ε) (d : DecoderOf ε α) (offset : Nat) (bs : Bytes) (x : α) :
    Prop where
  whole (rest : Bytes) : d ⟨offset, bs ++ rest⟩ = .ok x ⟨offset + bs.length, rest⟩
  cut {k : Nat} (hk : k < bs.length) :
    EndsEarly eof (offset + k) (bs.length - k) (d ⟨offset, bs.take k⟩)

/-- Whatever the decoder reads it takes from the bytes that it passes. -/
def Incremental (eof : Nat → Nat → ε) (d : DecoderOf ε α) : Prop :=
  ∀ c x c', d c = .ok x c' → ∃ bs, c.rest = bs ++ c'.rest ∧ Takes eof d c.offset bs x

section Sequence

variable {eof : Nat → Nat → ε} {d : DecoderOf ε α} {offset : Nat} {bs : Bytes} {x : α}

namespace EndsEarly

variable {last missing : Nat}

/-- What ended early by a bound ended early by a larger one. -/
theorem mono {r : EStateM.Result ε Cursor α} (h : EndsEarly eof last missing r)
    {last' missing' : Nat} (hlast : last ≤ last') (hmissing : missing ≤ missing') :
    EndsEarly eof last' missing' r := by
  obtain ⟨at', needed, c, hd, hat, hpos, hneeded⟩ := h
  exact ⟨at', needed, c, hd, Nat.le_trans hat hlast, hpos, Nat.le_trans hneeded hmissing⟩

/-- What comes after a decoder that fails is not reached. -/
theorem bind {c : Cursor} {f : α → DecoderOf ε β} (h : EndsEarly eof last missing (d c)) :
    EndsEarly eof last missing ((d >>= f) c) := by
  obtain ⟨at', needed, c, hd, hbounds⟩ := h
  exact ⟨at', needed, c, bind_eq_of_error hd, hbounds⟩

end EndsEarly

namespace Takes

/-- A value that is given takes no bytes. -/
theorem pure (x : α) : Takes eof (Pure.pure x : DecoderOf ε α) offset [] x :=
  ⟨fun _ => rfl, fun hk => absurd hk (Nat.not_lt_zero _)⟩

/-- A cut between the bytes of two decoders is one before the second. -/
theorem bind {f : α → DecoderOf ε β} {t : Bytes} {y : β} (h : Takes eof d offset bs x)
    (hf : Takes eof (f x) (offset + bs.length) t y) : Takes eof (d >>= f) offset (bs ++ t) y where
  whole rest := by
    rw [List.append_assoc, bind_eq_of_ok (h.whole (t ++ rest)), hf.whole, List.length_append,
      Nat.add_assoc]
  cut {k} hk := by
    rw [List.length_append] at hk ⊢
    by_cases hfirst : k < bs.length
    · rw [List.take_append_of_le_length (Nat.le_of_lt hfirst)]
      exact (h.cut hfirst).bind.mono (Nat.le_refl _) (by omega)
    · have hsecond := hf.cut (k := k - bs.length) (by omega)
      rw [List.take_append, List.take_of_length_le (by omega)]
      obtain ⟨at', needed, c, hd, hat, hpos, hneeded⟩ := hsecond
      refine ⟨at', needed, c, ?_, by omega, hpos, by omega⟩
      rw [bind_eq_of_ok (h.whole _), hd]

/-- Bytes are taken alike with errors renamed. -/
theorem mapError {f : ε → ε'} (h : Takes eof d offset bs x) :
    Takes (fun offset needed => f (eof offset needed)) (Decoder.mapError f d) offset bs x where
  whole rest := by
    rw [Decoder.mapError, EStateM.adaptExcept, h.whole]
  cut hk := by
    obtain ⟨at', needed, c, hd, hbounds⟩ := h.cut hk
    refine ⟨at', needed, c, ?_, hbounds⟩
    rw [Decoder.mapError, EStateM.adaptExcept, hd]

end Takes

namespace Incremental

/-- A value that is given is read from no bytes. -/
theorem pure (x : α) : Incremental eof (Pure.pure x : DecoderOf ε α) := by
  rintro c _ _ ⟨⟩
  exact ⟨[], rfl, .pure x⟩

/-- A decoder that fails on every input reads nothing. -/
theorem fail (h : ∀ c, ∃ e c', d c = .error e c') : Incremental eof d := by
  intro c x c' hd
  obtain ⟨e, c'', herror⟩ := h c
  cases hd.symm.trans herror

/-- Two decoders take their bytes one after the other. -/
theorem bind {f : α → DecoderOf ε β} (h : Incremental eof d) (hf : ∀ x, Incremental eof (f x)) :
    Incremental eof (d >>= f) := by
  intro c y c' hd
  obtain ⟨x, c'', hx, hy⟩ := exists_of_bind_eq_ok hd
  obtain ⟨bs, hbs, htakes⟩ := h c x c'' hx
  -- The second decoder starts where the bytes of the first end.
  have hc : (⟨c.offset + bs.length, c''.rest⟩ : Cursor) = c'' := by
    have hwhole := htakes.whole c''.rest
    rw [← hbs] at hwhole
    exact (EStateM.Result.ok.inj (hwhole.symm.trans hx)).2
  obtain ⟨t, ht, htakes'⟩ := hf x c'' y c' hy
  rw [← hc] at htakes'
  exact ⟨bs ++ t, by rw [hbs, ht, List.append_assoc], htakes.bind htakes'⟩

/-- What is made of a value takes no further bytes. -/
theorem map {f : α → β} (h : Incremental eof d) :
    Incremental eof (d >>= fun x => Pure.pure (f x)) :=
  h.bind fun x => pure (f x)

/-- So it is with errors renamed. -/
theorem mapError (h : Incremental eof d) (f : ε → ε') :
    Incremental (fun offset needed => f (eof offset needed)) (Decoder.mapError f d) := by
  intro c x c' hd
  obtain ⟨bs, hbs, htakes⟩ := h c x c' (of_mapError_eq_ok hd)
  exact ⟨bs, hbs, htakes.mapError⟩

end Incremental

end Sequence

/-! ## The smallest decoders -/

section Smallest

variable {eof : Nat → Nat → ε}

/-- Asking for the place takes no bytes. -/
theorem incremental_offset : Incremental eof (Decoder.offset : DecoderOf ε Nat) := by
  rintro c _ _ ⟨⟩
  exact ⟨[], rfl, fun _ => rfl, fun hk => absurd hk (Nat.not_lt_zero _)⟩

/-- So many bytes are taken, and if there are fewer those that are cut off are missing. -/
theorem takes_takeSized {n : Nat} {bs : Bytes} (h : bs.length = n) (offset : Nat) :
    Takes Error.endOfInput (Decoder.takeSized n) offset bs ⟨bs, h⟩ where
  whole rest := by
    obtain ⟨⟨_, _⟩, rfl, hd⟩ := (decides_takeSized h offset rest).1 trivial
    exact hd
  cut {k} hk := by
    have hlength : (bs.take k).length = k := List.length_take_of_le (Nat.le_of_lt hk)
    have hfew : (bs.take k).length < n := by omega
    refine ⟨offset, n - k, ⟨offset, bs.take k⟩, ?_, Nat.le_add_right _ _, by omega, by omega⟩
    exact takeSized_eq_error_iff.2 ⟨hfew, by rw [hlength], rfl⟩

/-- So whatever is read of so many bytes is taken. -/
theorem incremental_takeSized (n : Nat) : Incremental Error.endOfInput (Decoder.takeSized n) := by
  rintro c ⟨front, hfront⟩ c' hd
  exact ⟨front, (takeSized_eq_ok_iff.1 hd).1, takes_takeSized hfront c.offset⟩

/-- So is one byte. -/
theorem incremental_byte : Incremental Error.endOfInput Decoder.byte := by
  intro c b c' hd
  refine ⟨[b], (byte_eq_ok_iff.1 hd).1, fun rest => rfl, fun {k} hk => ?_⟩
  obtain rfl : k = 0 := Nat.lt_one_iff.1 hk
  exact ⟨c.offset, 1, _, rfl, Nat.le_refl _, Nat.le_refl _, Nat.le_refl _⟩

/-- So are bytes whose number is not kept with them. -/
theorem incremental_take (n : Nat) : Incremental Error.endOfInput (Decoder.take n) :=
  (incremental_takeSized n).map

/-- So are those of a number. -/
theorem incremental_number (width : Nat) : Incremental Error.endOfInput (Decoder.number width) :=
  (incremental_take width).map

end Smallest

/-! ## Counted bytes and lists -/

/-- The bytes of a count are taken behind its mark. -/
theorem incremental_readBounded (max : Nat) :
    Incremental Error.endOfInput (Count.readBounded max) := by
  have hmark : ∀ mark, Incremental Error.endOfInput (Count.readFrom mark) := by
    intro mark
    rw [Count.readFrom]
    split
    · exact incremental_number 2
    split
    · exact incremental_number 4
    split
    · exact incremental_number 8
    · exact .pure _
  refine incremental_offset.bind fun offset => incremental_byte.bind fun mark =>
    (hmark mark).bind fun value => ?_
  split
  · exact .pure _
  · exact .fail fun c => ⟨_, c, rfl⟩

/-- So they are where the bound is not kept with the count. -/
theorem incremental_read (max : Nat) : Incremental Error.endOfInput (Count.read max) :=
  (incremental_readBounded max).map

/-- Counted bytes are taken after their count. -/
theorem incremental_readCountedBounded (max : Nat) :
    Incremental Error.endOfInput (Counted.readBounded max) :=
  (incremental_readBounded max).bind fun ⟨n, _⟩ =>
    (incremental_takeSized n).bind fun ⟨_, _⟩ => .pure _

/-- So they are where the bound is not kept with them. -/
theorem incremental_readCounted (max : Nat) : Incremental Error.endOfInput (Counted.read max) :=
  (incremental_readCountedBounded max).map

/-- Items are taken one after another. -/
theorem incremental_collect {eof : Nat → Nat → ε} {item : DecoderOf ε α} (h : Incremental eof item)
    (count : Nat) (acc : List α) : Incremental eof (Decoder.collect item count acc) := by
  induction count generalizing acc with
  | zero => exact .pure _
  | succ count ih => exact h.bind fun x => ih (x :: acc)

/-- So is a list of them, after its count. -/
theorem incremental_readList {item : Decoder α} (h : Incremental Error.endOfInput item)
    (max : Nat) : Incremental Error.endOfInput (Counted.readList item max) :=
  (incremental_read max).bind fun n => incremental_collect h n []

/-! ## Whole inputs -/

/-- However much of its end is cut off, the input is found to end too early, at a place that it has
and for want of no more than was cut off. -/
def ReportsCuts (read : Bytes → Except ε α) (eof : Nat → Nat → ε) (input : Bytes) : Prop :=
  ∀ k < input.length, ∃ offset needed,
    read (input.take k) = .error (eof offset needed) ∧ offset ≤ k ∧ 1 ≤ needed ∧
      needed ≤ input.length - k

/-- A decoder that takes a whole input misses what is cut off. -/
theorem Incremental.endsEarly {eof : Nat → Nat → ε} {d : DecoderOf ε α} (h : Incremental eof d)
    {bs : Bytes} {x : α} {c : Cursor} (hd : d (.start bs) = .ok x c) (hend : c.rest = []) {k : Nat}
    (hk : k < bs.length) : EndsEarly eof k (bs.length - k) (d (.start (bs.take k))) := by
  obtain ⟨taken, hrest, htakes⟩ := h _ _ _ hd
  rw [hend, List.append_nil] at hrest
  obtain rfl : bs = taken := hrest
  exact (htakes.cut hk).mono (Nat.le_of_eq (Nat.zero_add k)) (Nat.le_refl _)

/-- What a decoder reads as a whole input it does not read with the end cut off. -/
theorem Incremental.reportsCuts {d : Decoder α} (h : Incremental Error.endOfInput d)
    {subject : String} {bs : Bytes} {x : α} (hrun : d.run subject bs = .ok x) :
    ReportsCuts (d.run subject) Error.endOfInput bs := by
  obtain ⟨c, hd, hend⟩ := exists_of_run_eq_ok hrun
  intro k hk
  obtain ⟨offset, needed, c', hcut, hbounds⟩ := h.endsEarly hd hend hk
  refine ⟨offset, needed, ?_, hbounds⟩
  rw [Decoder.run, EStateM.run, hcut]

end LedgerClient.Wire
