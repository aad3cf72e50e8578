import LedgerClient.Proofs.Wire.Reading
import LedgerClient.Proofs.Wire.Yield

/-!
# Saying again what was read

Counts may be read in longer forms than the one in which they are written, so that an input and what
is written of its value need not be the same. `Restates d Q` says that of whatever input the decoder
`d` reads, the bytes that it takes can be replaced by some that have `Q` with the value, and that
these are the same bytes or fewer (`Condensed`). Bytes that are condensed part by part are condensed
as a whole (`Condensed.append`), so that decoders in sequence restate what each of them does
(`Restates.bind`).

Counts are where bytes are saved (`condensed_count`): a form that is not the shortest is longer by
two bytes at least. Everything else that is read is restated as it came.
-/

namespace LedgerClient.Wire

open scoped Power

variable {ε α β : Type}

/-- The bytes `out` are the bytes `bs`, or fewer. -/
def Condensed (out bs : Bytes) : Prop := out = bs ∨ out.length < bs.length

namespace Condensed

/-- Bytes are condensed to themselves. -/
theorem refl (bs : Bytes) : Condensed bs bs := .inl rfl

/-- Two parts are condensed if each of them is. -/
theorem append {out out' bs bs' : Bytes} (h : Condensed out bs) (h' : Condensed out' bs') :
    Condensed (out ++ out') (bs ++ bs') := by
  obtain rfl | hlt := h
  · obtain rfl | hlt' := h'
    · exact .refl _
    · refine .inr ?_
      rw [List.length_append, List.length_append]
      omega
  · have hle : out'.length ≤ bs'.length := by
      obtain rfl | hlt' := h'
      · exact Nat.le_refl _
      · exact Nat.le_of_lt hlt'
    refine .inr ?_
    rw [List.length_append, List.length_append]
    omega

/-- What is condensed twice is condensed. -/
theorem trans {out bs bs' : Bytes} (h : Condensed out bs) (h' : Condensed bs bs') :
    Condensed out bs' := by
  obtain rfl | hlt := h
  · exact h'
  · obtain rfl | hlt' := h'
    · exact .inr hlt
    · exact .inr (Nat.lt_trans hlt hlt')

/-- Condensed bytes are not more. -/
theorem length_le {out bs : Bytes} (h : Condensed out bs) : out.length ≤ bs.length := by
  obtain rfl | hlt := h
  · exact Nat.le_refl _
  · exact Nat.le_of_lt hlt

/-- If they are as many, they are the same. -/
theorem eq_of_length_eq {out bs : Bytes} (h : Condensed out bs) (hlength : out.length = bs.length) :
    out = bs :=
  h.resolve_right (Nat.not_lt_of_ge (Nat.le_of_eq hlength.symm))

end Condensed

/-- The bytes that the decoder takes of any input can be replaced by bytes that have `Q` with the
value that it reads; these are the same bytes or fewer. -/
def Restates (d : DecoderOf ε α) (Q : α → Bytes → Prop) : Prop :=
  ∀ c x c', d c = .ok x c' → ∃ bs out, c.rest = bs ++ c'.rest ∧ Condensed out bs ∧ Q x out

namespace Restates

variable {d : DecoderOf ε α} {Q : α → Bytes → Prop}

/-- A value that is given is restated by no bytes. -/
theorem pure {x : α} (h : Q x []) : Restates (Pure.pure x : DecoderOf ε α) Q := by
  rintro c _ _ ⟨⟩
  exact ⟨[], [], rfl, .refl _, h⟩

/-- Bytes that restate can be condensed further. -/
theorem condense {S : α → Bytes → Prop} (h : Restates d Q)
    (hS : ∀ x out, Q x out → ∃ out', Condensed out' out ∧ S x out') : Restates d S := by
  intro c x c' hd
  obtain ⟨bs, out, hrest, hout, hQ⟩ := h c x c' hd
  obtain ⟨out', hout', hx⟩ := hS x out hQ
  exact ⟨bs, out', hrest, hout'.trans hout, hx⟩

/-- More may be known of what is read than is said of it. -/
theorem imp {S : α → Bytes → Prop} (h : Restates d Q) (hS : ∀ x out, Q x out → S x out) :
    Restates d S :=
  h.condense fun x out hQ => ⟨out, .refl _, hS x out hQ⟩

/-- What a decoder promises of its values holds of those that are restated. -/
theorem and_yields {P : α → Prop} (h : Restates d Q) (hd : Yields d P) :
    Restates d fun x out => P x ∧ Q x out := by
  intro c x c' hok
  obtain ⟨bs, out, hrest, hout, hQ⟩ := h c x c' hok
  exact ⟨bs, out, hrest, hout, hd c x c' hok, hQ⟩

/-- A decoder that fails on every input has nothing to restate. -/
theorem fail (h : ∀ c, ∃ e c', d c = .error e c') : Restates d Q := by
  intro c x c' hd
  obtain ⟨e, c'', herror⟩ := h c
  cases hd.symm.trans herror

/-- The bytes of two decoders are restated one after the other. -/
theorem bind {f : α → DecoderOf ε β} {S : β → Bytes → Prop} (h : Restates d Q)
    (hf : ∀ x out, Q x out → Restates (f x) fun y out' => S y (out ++ out')) :
    Restates (d >>= f) S := by
  intro c y c' hd
  obtain ⟨x, c'', hx, hy⟩ := exists_of_bind_eq_ok hd
  obtain ⟨bs, out, hrest, hout, hQ⟩ := h c x c'' hx
  obtain ⟨bs', out', hrest', hout', hS⟩ := hf x out hQ c'' y c' hy
  refine ⟨bs ++ bs', out ++ out', ?_, hout.append hout', hS⟩
  rw [hrest, hrest', List.append_assoc]

/-- What is made of a value is restated by the same bytes. -/
theorem map {f : α → β} {S : β → Bytes → Prop} (h : Restates d Q)
    (hf : ∀ x out, Q x out → S (f x) out) : Restates (d >>= fun x => Pure.pure (f x)) S :=
  h.bind fun x out hQ => pure (by rw [List.append_nil]; exact hf x out hQ)

/-- What is sent only under a condition is restated under it, and is `y` otherwise. -/
theorem bind_ite {c : Prop} [Decidable c] {encode : α → Bytes} {y : α} {f : α → DecoderOf ε β}
    {S : β → Bytes → Prop} (h : Restates d fun x out => out = encode x)
    (hf : ∀ x, (¬ c → x = y) →
      Restates (f x) fun z out => S z ((if c then encode x else []) ++ out)) :
    Restates (if c then d >>= f else Pure.pure y >>= f) S := by
  by_cases hc : c
  · simp only [if_pos hc] at hf ⊢
    refine h.bind ?_
    rintro x _ rfl
    exact hf x (absurd hc)
  · simp only [if_neg hc] at hf ⊢
    rw [pure_bind]
    exact hf y fun _ => rfl

/-- A whole input is restated by bytes that are condensed from it. -/
theorem of_run {d : Decoder α} (h : Restates d Q) {subject : String} {bs : Bytes} {x : α}
    (hrun : d.run subject bs = .ok x) : ∃ out, Condensed out bs ∧ Q x out := by
  obtain ⟨c, hd, hend⟩ := exists_of_run_eq_ok hrun
  obtain ⟨taken, out, hrest, hout, hQ⟩ := h _ _ _ hd
  rw [hend, List.append_nil] at hrest
  obtain rfl : bs = taken := hrest
  exact ⟨out, hout, hQ⟩

end Restates

/-! ## Bytes and numbers -/

/-- Asking for the place is restated by no bytes. -/
theorem restates_offset : Restates (Decoder.offset : DecoderOf ε Nat) fun _ out => out = [] := by
  rintro c _ _ ⟨⟩
  exact ⟨[], [], rfl, .refl _, rfl⟩

/-- A byte restates itself. -/
theorem restates_byte : Restates Decoder.byte fun b out => out = [b] := by
  intro c b c' hd
  exact ⟨[b], [b], (byte_eq_ok_iff.1 hd).1, .refl _, rfl⟩

/-- So do so many bytes. -/
theorem restates_takeSized (n : Nat) : Restates (Decoder.takeSized n) fun bs out => out = bs.1 := by
  intro c bs c' hd
  exact ⟨bs.1, bs.1, (takeSized_eq_ok_iff.1 hd).1, .refl _, rfl⟩

/-- A value that is made of bytes of a given length is restated by these bytes. -/
theorem restates_sized {n : Nat} {Q : α → Bytes → Prop} (f : (ys : Bytes) → ys.length = n → α)
    (hf : ∀ bs hbs, Q (f bs hbs) bs) :
    Restates (do
      let ⟨ys, hys⟩ ← Decoder.takeSized n
      return f ys hys) Q := by
  refine (restates_takeSized n).bind ?_
  rintro ⟨_, hbs⟩ bs rfl
  refine .pure ?_
  rw [List.append_nil]
  exact hf bs hbs

/-- A number is restated by its bytes in the same width. -/
theorem restates_number (width : Nat) :
    Restates (Decoder.number width) fun n out =>
      n < 256 ^ width ∧ out = Bytes.littleEndian width n := by
  rw [Decoder.number, Decoder.take, bind_assoc]
  refine (restates_takeSized width).bind fun bs out hout => ?_
  rw [pure_bind]
  have hlt := Bytes.toNat_lt bs.1
  have hbytes := Bytes.littleEndian_toNat bs.1
  rw [bs.2] at hlt hbytes
  refine .pure ⟨hlt, ?_⟩
  rw [List.append_nil, hbytes]
  exact hout

/-! ## Counts -/

/-- The shortest form of a count is no longer than a form behind a mark, and is that form if it is
as long. -/
theorem condensed_count {mark : UInt8} {width n : Nat} (hn : n < 256 ^ width)
    (hmark : (mark, width) ∈ countMarks) :
    Condensed (Count.write n) ([mark] ++ Bytes.littleEndian width n) := by
  rw [Count.write]
  -- The forms that are tried before the one at hand are shorter.
  obtain ⟨rfl, rfl⟩ | ⟨rfl, rfl⟩ | ⟨rfl, rfl⟩ := mem_countMarks_iff.1 hmark
  · split
    · exact .inr (by simp)
    · rw [if_pos (by omega)]
      exact .refl _
  · split
    · exact .inr (by simp)
    split
    · exact .inr (by simp)
    · rw [if_pos (by omega)]
      exact .refl _
  · split
    · exact .inr (by simp)
    split
    · exact .inr (by simp)
    split
    · exact .inr (by simp)
    · exact .refl _

/-- In whatever form a count stands, it is restated in its shortest. -/
theorem restates_count :
    Restates (Decoder.byte >>= Count.readFrom) fun n out => out = Count.write n := by
  -- Behind a mark the number may be smaller than it need be; what is written then is shorter.
  have hmarked : ∀ (mark : UInt8) (width : Nat), (mark, width) ∈ countMarks →
      Restates (Decoder.number width) fun n out => Condensed (Count.write n) ([mark] ++ out) := by
    intro mark width hmark
    refine (restates_number width).imp ?_
    rintro n _ ⟨hn, rfl⟩
    exact condensed_count hn hmark
  have hread : Restates (Decoder.byte >>= Count.readFrom) fun n out =>
      Condensed (Count.write n) out := by
    refine restates_byte.bind ?_
    rintro mark _ rfl
    rw [Count.readFrom]
    split
    · next h => exact h ▸ hmarked 0xFD 2 (by decide)
    split
    · next h => exact h ▸ hmarked 0xFE 4 (by decide)
    split
    · next h => exact h ▸ hmarked 0xFF 8 (by decide)
    · next h₁ h₂ h₃ =>
      refine .pure ?_
      have hsmall : mark.toNat < 0xFD := by
        have := mark.toNat_lt
        rw [← UInt8.toNat_inj] at h₁ h₂ h₃
        simp only [UInt8.reduceToNat] at h₁ h₂ h₃
        omega
      rw [Count.write, if_pos hsmall, UInt8.ofNat_toNat]
      exact .refl _
  exact hread.condense fun n out hout => ⟨_, hout, rfl⟩

/-- A count is restated by what is written for it. -/
theorem restates_readBounded (max : Nat) :
    Restates (Count.readBounded max) fun n out => out = Count.write n.1 := by
  have hbounded : ∀ (offset value : Nat), Restates (if h : value ≤ max then Pure.pure ⟨value, h⟩
        else Decoder.malformed offset (.countAbove value max))
      fun (n : { n : Nat // n ≤ max }) out => n.1 = value ∧ out = [] := by
    intro offset value
    split
    · exact .pure ⟨rfl, rfl⟩
    · exact .fail fun c => ⟨_, c, rfl⟩
  rw [Count.readBounded]
  refine restates_offset.bind ?_
  rintro offset _ rfl
  rw [← bind_assoc]
  refine restates_count.bind ?_
  rintro value _ rfl
  refine (hbounded offset value).imp ?_
  rintro n _ ⟨rfl, rfl⟩
  rw [List.nil_append, List.append_nil]

/-- So it is where the bound is not kept with it. -/
theorem restates_read (max : Nat) :
    Restates (Count.read max) fun n out => out = Count.write n :=
  (restates_readBounded max).map fun _ _ => id

/-! ## Counted bytes and lists -/

/-- Counted bytes are restated by what is written for them. -/
theorem restates_readCountedBounded (max : Nat) :
    Restates (Counted.readBounded max) fun bs out => out = Counted.write bs.1 := by
  refine (restates_readBounded max).bind ?_
  rintro ⟨n, hn⟩ _ rfl
  refine (restates_takeSized n).bind ?_
  rintro ⟨bs, rfl⟩ out hout
  refine .pure ?_
  rw [List.append_nil]
  exact congrArg (Count.write bs.length ++ ·) hout

/-- So they are where the bound is not kept with them. -/
theorem restates_readCounted (max : Nat) :
    Restates (Counted.read max) fun bs out => out = Counted.write bs :=
  (restates_readCountedBounded max).map fun _ _ => id

section List

variable {item : Decoder α} {encode : α → Bytes}

/-- Entries in a row are restated one by one. -/
theorem restates_collect (h : Restates item fun x out => out = encode x) (count : Nat)
    (acc : List α) :
    Restates (Decoder.collect item count acc) fun xs out =>
      ∃ read, xs = acc.reverse ++ read ∧ read.length = count ∧ out = read.flatMap encode := by
  induction count generalizing acc with
  | zero => exact .pure ⟨[], (List.append_nil _).symm, rfl, rfl⟩
  | succ count ih =>
    refine h.bind ?_
    rintro x _ rfl
    refine (ih (x :: acc)).imp ?_
    rintro _ _ ⟨read, rfl, rfl, rfl⟩
    refine ⟨x :: read, ?_, rfl, rfl⟩
    rw [List.reverse_cons, List.append_assoc, List.singleton_append]

/-- A list is restated by its entries after the shortest form of their number. -/
theorem restates_readList (h : Restates item fun x out => out = encode x) (max : Nat) :
    Restates (Counted.readList item max) fun xs out => out = Counted.writeList encode xs := by
  refine (restates_read max).bind ?_
  rintro count _ rfl
  refine (restates_collect h count []).imp ?_
  rintro _ _ ⟨read, rfl, rfl, rfl⟩
  rfl

end List

end LedgerClient.Wire
