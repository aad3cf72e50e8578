import LedgerClient.Proofs.Wire.Reading

/-!
# What decoders promise of their values

`Yields d Q` says that whatever the decoder `d` reads, from whatever input, has the property `Q`.
What a decoder promises follows from what its last step promises of what the steps before can give
(`Yields.bind`). A counted list promises of each entry what the entry's decoder does, and that its
limit is met (`yields_readList`).
-/

namespace LedgerClient.Wire

variable {ε α β : Type}

/-- Every value that the decoder reads has the property. -/
def Yields (d : DecoderOf ε α) (Q : α → Prop) : Prop :=
  ∀ c x c', d c = .ok x c' → Q x

namespace Yields

variable {d : DecoderOf ε α} {P Q : α → Prop}

/-- Nothing is said of any decoder. -/
theorem any (d : DecoderOf ε α) : Yields d fun _ => True := fun _ _ _ _ => trivial

/-- Less may be said than holds. -/
theorem imp (h : Yields d P) (hPQ : ∀ x, P x → Q x) : Yields d Q :=
  fun c x c' hd => hPQ x (h c x c' hd)

/-- A value that is given may have any property that it has. -/
theorem pure {x : α} (h : Q x) : Yields (Pure.pure x : DecoderOf ε α) Q := by
  rintro _ _ _ ⟨⟩
  exact h

/-- A decoder that fails on every input promises anything. -/
theorem fail (h : ∀ c, ∃ e c', d c = .error e c') : Yields d Q := by
  intro c x c' hd
  obtain ⟨e, c'', herror⟩ := h c
  cases hd.symm.trans herror

/-- What the second decoder reads may depend on what holds of the first value. -/
theorem bind {f : α → DecoderOf ε β} {S : β → Prop} (h : Yields d P)
    (hf : ∀ x, P x → Yields (f x) S) : Yields (d >>= f) S := by
  intro c y c' hd
  obtain ⟨x, c'', hx, hy⟩ := exists_of_bind_eq_ok hd
  exact hf x (h c x c'' hx) c'' y c' hy

/-- What is made of a value has what follows from its property. -/
theorem map {f : α → β} {S : β → Prop} (h : Yields d P) (hf : ∀ x, P x → S (f x)) :
    Yields (d >>= fun x => Pure.pure (f x)) S :=
  h.bind fun x hx => pure (hf x hx)

/-- What is sent only under a condition is what the decoder promises under it, and `y` otherwise. -/
theorem bind_ite {c : Prop} [Decidable c] {y : α} {f : α → DecoderOf ε β} {S : β → Prop}
    (h : Yields d P) (hf : ∀ x, (c → P x) → (¬ c → x = y) → Yields (f x) S) :
    Yields (if c then d >>= f else Pure.pure y >>= f) S := by
  split
  · next hc => exact h.bind fun x hx => hf x (fun _ => hx) (absurd hc)
  · next hc =>
    exact (pure (Q := (· = y)) rfl).bind fun x hx => hf x (absurd · hc) fun _ => hx

/-- The value of a whole input is a value that the decoder reads. -/
theorem of_run {d : Decoder α} (h : Yields d Q) {subject : String} {bs : Bytes} {x : α}
    (hrun : d.run subject bs = .ok x) : Q x := by
  obtain ⟨c, hd, -⟩ := exists_of_run_eq_ok hrun
  exact h _ _ _ hd

end Yields

/-! ## Counts and what they count -/

/-- A count that is read is within the bound. -/
theorem yields_read (max : Nat) : Yields (Count.read max) (· ≤ max) :=
  (Yields.any (Count.readBounded max)).map fun n _ => n.2

/-- So is the number of counted bytes. -/
theorem yields_readCounted (max : Nat) : Yields (Counted.read max) (·.length ≤ max) :=
  (Yields.any (Counted.readBounded max)).map fun bs _ => bs.2

/-- Items are collected in the number that is asked for, and each has the property. -/
theorem yields_collect {item : Decoder α} {Q : α → Prop} (h : Yields item Q) {count : Nat}
    {acc : List α} (hacc : ∀ x ∈ acc, Q x) :
    Yields (Decoder.collect item count acc) fun xs =>
      xs.length = acc.length + count ∧ ∀ x ∈ xs, Q x := by
  induction count generalizing acc with
  | zero => exact .pure ⟨List.length_reverse, fun x hx => hacc x (List.mem_reverse.1 hx)⟩
  | succ count ih =>
    refine h.bind fun x hx => (ih (List.forall_mem_cons.2 ⟨hx, hacc⟩)).imp fun xs hxs => ?_
    obtain ⟨hlength, hall⟩ := hxs
    rw [List.length_cons] at hlength
    exact ⟨by omega, hall⟩

/-- A list that is read is within the bound, and each of its items has the property. -/
theorem yields_readList {item : Decoder α} {Q : α → Prop} (h : Yields item Q) (max : Nat) :
    Yields (Counted.readList item max) fun xs => xs.length ≤ max ∧ ∀ x ∈ xs, Q x := by
  refine (yields_read max).bind fun n hn =>
    (yields_collect h (List.forall_mem_nil _)).imp fun xs hxs => ?_
  obtain ⟨hlength, hall⟩ := hxs
  rw [List.length_nil, Nat.zero_add] at hlength
  exact ⟨hlength ▸ hn, hall⟩

end LedgerClient.Wire
