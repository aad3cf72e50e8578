import LedgerClient.Proofs.Wire.Reading

/-!
# How much decoders take

`TakesAtMost d k` says that the decoder `d` takes at most `k` bytes of whatever input. Extents of
decoders in sequence add up, and those of a counted list are bounded by the limit on its entries, so
that no input beyond a fixed length is the whole of a value (`TakesAtMost.length_le`).
-/

namespace LedgerClient.Wire

variable {ε α β : Type}

/-- The decoder takes at most `k` bytes of any input that it reads. -/
def TakesAtMost (d : DecoderOf ε α) (k : Nat) : Prop :=
  ∀ c x c', d c = .ok x c' → c.rest.length ≤ c'.rest.length + k

namespace TakesAtMost

variable {d : DecoderOf ε α} {k l : Nat}

/-- A larger bound holds too. -/
theorem mono (h : TakesAtMost d k) (hkl : k ≤ l) : TakesAtMost d l := by
  intro c x c' hd
  have := h c x c' hd
  omega

/-- A value that is given takes no bytes. -/
theorem pure (x : α) : TakesAtMost (Pure.pure x : DecoderOf ε α) k := by
  rintro c _ _ ⟨⟩
  exact Nat.le_add_right _ _

/-- A decoder that fails on every input takes nothing. -/
theorem fail (h : ∀ c, ∃ e c', d c = .error e c') : TakesAtMost d k := by
  intro c x c' hd
  obtain ⟨e, c'', herror⟩ := h c
  cases hd.symm.trans herror

/-- Two decoders take what both of them take. -/
theorem bind {f : α → DecoderOf ε β} (h : TakesAtMost d k) (hf : ∀ x, TakesAtMost (f x) l) :
    TakesAtMost (d >>= f) (k + l) := by
  intro c y c' hd
  obtain ⟨x, c'', hx, hy⟩ := exists_of_bind_eq_ok hd
  have := h c x c'' hx
  have := hf x c'' y c' hy
  omega

/-- What is made of a value takes no more. -/
theorem map {f : α → β} (h : TakesAtMost d k) : TakesAtMost (d >>= fun x => Pure.pure (f x)) k :=
  h.bind fun x => pure (k := 0) (f x)

/-- What is sent only under a condition takes no bytes without it. -/
theorem bind_ite {c : Prop} [Decidable c] {y : α} {f : α → DecoderOf ε β} (h : TakesAtMost d k)
    (hf : ∀ x, TakesAtMost (f x) l) :
    TakesAtMost (if c then d >>= f else Pure.pure y >>= f) (k + l) := by
  split
  · exact h.bind hf
  · exact (pure y).bind hf

/-- A whole input is no longer than what the decoder takes at most. -/
theorem length_le {d : Decoder α} (h : TakesAtMost d k) {subject : String} {bs : Bytes} {x : α}
    (hrun : d.run subject bs = .ok x) : bs.length ≤ k := by
  obtain ⟨c, hd, hend⟩ := exists_of_run_eq_ok hrun
  have hle := h _ _ _ hd
  rw [hend, List.length_nil, Nat.zero_add] at hle
  exact hle

end TakesAtMost

open TakesAtMost

/-! ## The smallest decoders -/

/-- Asking for the place takes no bytes. -/
theorem takesAtMost_offset : TakesAtMost (Decoder.offset : DecoderOf ε Nat) 0 := by
  rintro c _ _ ⟨⟩
  exact Nat.le_refl _

/-- One byte is one. -/
theorem takesAtMost_byte : TakesAtMost Decoder.byte 1 := by
  intro c x c' hd
  rw [(byte_eq_ok_iff.1 hd).1]
  exact Nat.le_refl _

/-- So many bytes are as many. -/
theorem takesAtMost_takeSized (n : Nat) : TakesAtMost (Decoder.takeSized n) n := by
  intro c x c' hd
  rw [(takeSized_eq_ok_iff.1 hd).1, List.length_append, x.2]
  exact Nat.le_of_eq (Nat.add_comm _ _)

/-- A number takes the bytes of its width. -/
theorem takesAtMost_number (width : Nat) : TakesAtMost (Decoder.number width) width :=
  (takesAtMost_takeSized width).map.map

/-! ## Counted bytes and lists -/

/-- A count takes a mark and eight bytes, if not less. -/
theorem takesAtMost_readBounded (max : Nat) : TakesAtMost (Count.readBounded max) 9 := by
  have hmark : ∀ mark, TakesAtMost (Count.readFrom mark) 8 := by
    intro mark
    rw [Count.readFrom]
    split
    · exact (takesAtMost_number 2).mono (by decide)
    split
    · exact (takesAtMost_number 4).mono (by decide)
    split
    · exact takesAtMost_number 8
    · exact .pure _
  refine takesAtMost_offset.bind (l := 9) fun offset => takesAtMost_byte.bind (l := 8) fun mark =>
    (hmark mark).bind (l := 0) fun value => ?_
  split
  · exact .pure _
  · exact .fail fun c => ⟨_, c, rfl⟩

/-- A count is at most its limit. -/
theorem takesAtMost_read_bind {max k : Nat} {f : Nat → Decoder α}
    (hf : ∀ n ≤ max, TakesAtMost (f n) k) : TakesAtMost (Count.read max >>= f) (9 + k) := by
  rw [Count.read, bind_assoc]
  refine (takesAtMost_readBounded max).bind fun n => ?_
  rw [pure_bind]
  exact hf n.1 n.2

/-- Counted bytes take a count and as many as it allows. -/
theorem takesAtMost_readCountedBounded (max : Nat) :
    TakesAtMost (Counted.readBounded max) (9 + max) :=
  (takesAtMost_readBounded max).bind fun ⟨n, hn⟩ =>
    ((takesAtMost_takeSized n).mono hn).bind (l := 0) fun ⟨_, _⟩ => .pure _

/-- So they do where the bound is not kept with them. -/
theorem takesAtMost_readCounted (max : Nat) : TakesAtMost (Counted.read max) (9 + max) :=
  (takesAtMost_readCountedBounded max).map

/-- So many items take as often what one takes. -/
theorem takesAtMost_collect {item : Decoder α} {k : Nat} (h : TakesAtMost item k) (count : Nat)
    (acc : List α) : TakesAtMost (Decoder.collect item count acc) (count * k) := by
  induction count generalizing acc with
  | zero => exact .pure _
  | succ count ih =>
    have hbind := h.bind fun x => ih (x :: acc)
    exact hbind.mono (Nat.le_of_eq (by rw [Nat.succ_mul, Nat.add_comm]))

/-- A list takes a count and as many items as that allows. -/
theorem takesAtMost_readList {item : Decoder α} {k : Nat} (h : TakesAtMost item k) (max : Nat) :
    TakesAtMost (Counted.readList item max) (9 + max * k) :=
  takesAtMost_read_bind fun n hn => (takesAtMost_collect h n []).mono (Nat.mul_le_mul_right k hn)

end LedgerClient.Wire
