import LedgerClient.Wire.Compact

/-!
# What decoders make of given bytes

`Decides d bs P Q` says all about the decoder `d` on input that starts with `bs`: if `P` holds it
takes just these bytes and gives a value with `Q`, and otherwise it fails. Decoders in sequence
decide bytes in sequence (`Decides.bind`), and a counted list decides its entries, where the limit
on their number is met (`decides_readList`).
-/

namespace LedgerClient.Wire

open scoped Power

variable {ε ε' α β : Type}

/-- On input that starts with `bs`, the decoder takes `bs` and gives a value with `Q` if `P` holds,
and fails otherwise. -/
def Decides (d : DecoderOf ε α) (bs : Bytes) (P : Prop) (Q : α → Prop) : Prop :=
  ∀ offset rest,
    (P → ∃ x, Q x ∧ d ⟨offset, bs ++ rest⟩ = .ok x ⟨offset + bs.length, rest⟩) ∧
    (¬ P → ∃ e c, d ⟨offset, bs ++ rest⟩ = .error e c)

/-- After a value the next decoder goes on. -/
theorem bind_eq_of_ok {d : DecoderOf ε α} {f : α → DecoderOf ε β} {c c' : Cursor} {x : α}
    (h : d c = .ok x c') : (d >>= f) c = f x c' := by
  show EStateM.bind d f c = _
  rw [EStateM.bind, h]

/-- After an error nothing goes on. -/
theorem bind_eq_of_error {d : DecoderOf ε α} {f : α → DecoderOf ε β} {c c' : Cursor} {e : ε}
    (h : d c = .error e c') : (d >>= f) c = .error e c' := by
  show EStateM.bind d f c = _
  rw [EStateM.bind, h]

/-- What decoders in sequence read is read by one after the other. -/
theorem exists_of_bind_eq_ok {d : DecoderOf ε α} {f : α → DecoderOf ε β} {c c' : Cursor} {y : β}
    (h : (d >>= f) c = .ok y c') : ∃ x c'', d c = .ok x c'' ∧ f x c'' = .ok y c' := by
  cases hd : d c with
  | error e c'' =>
    rw [bind_eq_of_error hd] at h
    cases h
  | ok x c'' =>
    rw [bind_eq_of_ok hd] at h
    exact ⟨x, c'', rfl, h⟩

/-- What is read with errors renamed is read without. -/
theorem of_mapError_eq_ok {d : DecoderOf ε α} {f : ε → ε'} {c c' : Cursor} {x : α}
    (h : Decoder.mapError f d c = .ok x c') : d c = .ok x c' := by
  rw [Decoder.mapError, EStateM.adaptExcept] at h
  cases hd : d c with
  | error e c'' =>
    rw [hd] at h
    cases h
  | ok y c'' =>
    rw [hd] at h
    cases h
    rfl

/-- A value of a whole input is read up to the end. -/
theorem exists_of_run_eq_ok {d : Decoder α} {subject : String} {bs : Bytes} {x : α}
    (h : d.run subject bs = .ok x) : ∃ c, d (.start bs) = .ok x c ∧ c.rest = [] := by
  rw [Decoder.run, EStateM.run] at h
  split at h
  · cases h
  · next y c hd =>
    split at h
    · next hend =>
      cases h
      exact ⟨c, hd, List.isEmpty_iff.1 hend⟩
    · cases h

namespace Decides

variable {d : DecoderOf ε α} {bs : Bytes} {P : Prop} {Q : α → Prop}

/-- The condition and what is said of the value may be put in other words, and less may be said. -/
theorem congr (h : Decides d bs P Q) {R : Prop} {S : α → Prop} (hP : P ↔ R)
    (hQ : ∀ x, Q x → S x) : Decides d bs R S := by
  intro offset rest
  obtain ⟨hok, herror⟩ := h offset rest
  refine ⟨fun hR => ?_, fun hR => herror fun h => hR (hP.1 h)⟩
  obtain ⟨x, hx, hd⟩ := hok (hP.2 hR)
  exact ⟨x, hQ x hx, hd⟩

/-- A value that is given takes no bytes. -/
theorem pure {x : α} (h : Q x) : Decides (Pure.pure x : DecoderOf ε α) [] True Q :=
  fun _ _ => ⟨fun _ => ⟨x, h, rfl⟩, fun h => absurd trivial h⟩

/-- A decoder that fails on every input fails on this one. -/
theorem fail (h : ∀ c, ∃ e c', d c = .error e c') : Decides d bs False Q :=
  fun _ _ => ⟨False.elim, fun _ => h _⟩

/-- The bytes of two decoders are decided one after the other. -/
theorem bind {f : α → DecoderOf ε β} {t : Bytes} {R : Prop} {S : β → Prop}
    (h : Decides d bs P Q) (hf : ∀ x, Q x → Decides (f x) t R S) :
    Decides (d >>= f) (bs ++ t) (P ∧ R) S := by
  intro offset rest
  obtain ⟨hok, herror⟩ := h offset (t ++ rest)
  rw [List.append_assoc, List.length_append, ← Nat.add_assoc]
  by_cases hP : P
  · obtain ⟨x, hx, hd⟩ := hok hP
    obtain ⟨hok', herror'⟩ := hf x hx (offset + bs.length) rest
    rw [bind_eq_of_ok hd]
    exact ⟨fun h => hok' h.2, fun h => herror' fun hR => h ⟨hP, hR⟩⟩
  · obtain ⟨e, c, hd⟩ := herror hP
    rw [bind_eq_of_error hd]
    exact ⟨fun h => absurd h.1 hP, fun _ => ⟨e, c, rfl⟩⟩

/-- What is made of the value takes no further bytes. -/
theorem map {f : α → β} {S : β → Prop} (h : Decides d bs P Q) (hf : ∀ x, Q x → S (f x)) :
    Decides (d >>= fun x => Pure.pure (f x)) bs P S := by
  have hbind := h.bind fun x hx => Decides.pure (ε := ε) (hf x hx)
  rw [List.append_nil, and_true] at hbind
  exact hbind

/-- What is sent only under a condition is read under it, and is `y` otherwise. -/
theorem bind_ite {c : Prop} [Decidable c] {x y : α} {f : α → DecoderOf ε β} {t : Bytes} {R : Prop}
    {S : β → Prop} (h : c → Decides d bs True (· = x))
    (hf : Decides (f (if c then x else y)) t R S) :
    Decides (if c then d >>= f else Pure.pure y >>= f) ((if c then bs else []) ++ t) R S := by
  by_cases hc : c
  · simp only [if_pos hc] at hf ⊢
    have hbind := (h hc).bind (f := f) fun _ hx => hx ▸ hf
    exact hbind.congr (and_iff_right trivial) fun _ => id
  · simp only [if_neg hc] at hf ⊢
    rwa [pure_bind, List.nil_append]

/-- Bytes that decide one value are read as it, whatever follows. -/
theorem read {x : α} (h : Decides d bs True (· = x)) (offset : Nat) (rest : Bytes) :
    d ⟨offset, bs ++ rest⟩ = .ok x ⟨offset + bs.length, rest⟩ := by
  obtain ⟨_, rfl, hd⟩ := (h offset rest).1 trivial
  exact hd

/-- The whole input is read if it holds exactly the bytes that are decided. -/
theorem run_eq_ok_iff {d : Decoder α} {x y : α} (h : Decides d bs P (· = x)) (subject : String) :
    d.run subject bs = .ok y ↔ P ∧ x = y := by
  obtain ⟨hok, herror⟩ := h 0 []
  rw [List.append_nil] at hok herror
  rw [Decoder.run, EStateM.run, Cursor.start]
  by_cases hP : P
  · obtain ⟨_, rfl, hd⟩ := hok hP
    rw [hd]
    exact ⟨fun h => ⟨hP, Except.ok.inj h⟩, fun h => congrArg _ h.2⟩
  · obtain ⟨e, c, hd⟩ := herror hP
    rw [hd]
    exact iff_of_false nofun fun h => hP h.1

/-- An input of bytes that decide one value is read as it. -/
theorem run {d : Decoder α} {x : α} (h : Decides d bs True (· = x)) (subject : String) :
    d.run subject bs = .ok x :=
  (h.run_eq_ok_iff subject).2 ⟨trivial, rfl⟩

end Decides

/-! ## Bytes and numbers -/

/-- Asking for the place takes no bytes and never fails. -/
theorem decides_offset : Decides (Decoder.offset : DecoderOf ε Nat) [] True fun _ => True :=
  fun _ _ => ⟨fun _ => ⟨_, trivial, rfl⟩, fun h => absurd trivial h⟩

/-- The next byte is the first of the input, and the cursor moves over it. -/
theorem byte_eq_ok_iff {c c' : Cursor} {b : UInt8} :
    Decoder.byte c = .ok b c' ↔ c.rest = b :: c'.rest ∧ c'.offset = c.offset + 1 := by
  obtain ⟨offset, _ | ⟨first, back⟩⟩ := c
  · exact iff_of_false nofun nofun
  · constructor
    · rintro ⟨⟩
      exact ⟨rfl, rfl⟩
    · obtain ⟨offset', back'⟩ := c'
      rintro ⟨hrest, hoffset⟩
      obtain ⟨rfl, rfl⟩ : first = b ∧ back = back' := List.cons.inj hrest
      obtain rfl : offset' = offset + 1 := hoffset
      rfl

/-- Bytes that are taken stood first in the input, and the cursor moves over them. -/
theorem takeSized_eq_ok_iff {n : Nat} {c c' : Cursor} {x : { bs : Bytes // bs.length = n }} :
    Decoder.takeSized n c = .ok x c' ↔ c.rest = x.1 ++ c'.rest ∧ c'.offset = c.offset + n := by
  rw [Decoder.takeSized]
  split
  · next front back hsplit =>
    obtain ⟨hrest, hlength⟩ := Bytes.splitAt?_eq_some_iff.1 hsplit
    constructor
    · rintro ⟨⟩
      exact ⟨hrest, rfl⟩
    · obtain ⟨⟨bs, hbs⟩, offset', back'⟩ := x, c'
      rintro ⟨hrest', hoffset⟩
      obtain ⟨rfl, rfl⟩ : front = bs ∧ back = back' :=
        List.append_inj (hrest.symm.trans hrest') (hlength.trans hbs.symm)
      obtain rfl : offset' = c.offset + n := hoffset
      rfl
  · next hsplit =>
    refine iff_of_false nofun fun h => ?_
    cases hsplit.symm.trans (Bytes.splitAt?_eq_some_iff.2 ⟨h.1, x.2⟩)

/-- Bytes cannot be taken exactly where there are too few; the error names the number missing. -/
theorem takeSized_eq_error_iff {n : Nat} {c c' : Cursor} {e : Error} :
    Decoder.takeSized n c = .error e c' ↔
      c.rest.length < n ∧ e = .endOfInput c.offset (n - c.rest.length) ∧ c' = c := by
  rw [Decoder.takeSized]
  split
  · next front back hsplit =>
    obtain ⟨hrest, hlength⟩ := Bytes.splitAt?_eq_some_iff.1 hsplit
    refine iff_of_false nofun fun h => ?_
    have hle := congrArg List.length hrest
    rw [List.length_append] at hle
    omega
  · next hsplit =>
    constructor
    · rintro ⟨⟩
      exact ⟨Bytes.splitAt?_eq_none_iff.1 hsplit, rfl, rfl⟩
    · rintro ⟨-, rfl, rfl⟩
      rfl

/-- A byte is read as itself. -/
theorem decides_byte (b : UInt8) : Decides Decoder.byte [b] True (· = b) :=
  fun _ _ => ⟨fun _ => ⟨b, rfl, rfl⟩, fun h => absurd trivial h⟩

/-- So many bytes are read as themselves. -/
theorem decides_takeSized {n : Nat} {bs : Bytes} (h : bs.length = n) :
    Decides (Decoder.takeSized n) bs True (·.1 = bs) := by
  intro offset rest
  refine ⟨fun _ => ⟨⟨bs, h⟩, rfl, ?_⟩, fun h => absurd trivial h⟩
  exact takeSized_eq_ok_iff.2 ⟨rfl, congrArg (offset + ·) h⟩

/-- Bytes of a given length are made into a value with `Q`. -/
theorem decides_sized {n : Nat} {bs : Bytes} (h : bs.length = n) {Q : α → Prop}
    (f : (ys : Bytes) → ys.length = n → α) (hf : Q (f bs h)) :
    Decides (do
      let ⟨ys, hys⟩ ← Decoder.takeSized n
      return f ys hys) bs True Q := by
  have hmap := (decides_takeSized h).map (f := fun x => f x.val x.property) (S := Q)
  refine hmap ?_
  rintro ⟨_, _⟩ rfl
  exact hf

/-- So they are where their number is not kept with them. -/
theorem decides_take {n : Nat} {bs : Bytes} (h : bs.length = n) :
    Decides (Decoder.take n) bs True (· = bs) :=
  (decides_takeSized h).map fun _ => id

/-- A number is read from the bytes that are written for it, if they hold it. -/
theorem decides_number {width n : Nat} (h : n < 256 ^ width) :
    Decides (Decoder.number width) (Bytes.littleEndian width n) True (· = n) :=
  (decides_take (Bytes.length_littleEndian width n)).map fun bs hbs => by
    rw [hbs, Bytes.toNat_littleEndian h]

/-! ## Counts -/

/-- The marks of counts that stand in more than one byte, each with the number of bytes after it. -/
def countMarks : List (UInt8 × Nat) := [(0xFD, 2), (0xFE, 4), (0xFF, 8)]

/-- There are three marks. -/
theorem mem_countMarks_iff {mark : UInt8} {width : Nat} : (mark, width) ∈ countMarks ↔
    mark = 0xFD ∧ width = 2 ∨ mark = 0xFE ∧ width = 4 ∨ mark = 0xFF ∧ width = 8 := by
  simp [countMarks]

/-- The count after its mark. -/
theorem decides_count {n : Nat} (h : n < 2 ^ (64 : Nat)) :
    Decides (Decoder.byte >>= Count.readFrom) (Count.write n) True (· = n) := by
  have hmark : ∀ (b : UInt8) (bs : Bytes), Decides (Count.readFrom b) bs True (· = n) →
      Decides (Decoder.byte >>= Count.readFrom) (b :: bs) True (· = n) := by
    intro b bs hb
    have hbind := (decides_byte b).bind (f := Count.readFrom) fun x hx => hx ▸ hb
    exact hbind.congr (and_self_iff) fun _ => id
  rw [Count.write]
  split
  · next hsmall =>
    have hn : (UInt8.ofNat n).toNat = n := by
      rw [UInt8.toNat_ofNat']
      omega
    have hne : ∀ b : UInt8, 0xFD ≤ b.toNat → UInt8.ofNat n ≠ b := by
      rintro b hb rfl
      omega
    refine hmark _ [] ?_
    rw [Count.readFrom, if_neg (hne _ (by decide)), if_neg (hne _ (by decide)),
      if_neg (hne _ (by decide))]
    exact .pure hn
  split
  · exact hmark _ _ (decides_number (by omega))
  split
  · exact hmark _ _ (decides_number (by omega))
  · exact hmark _ _ (decides_number (by omega))

/-- A count is read from what is written for it, if it is not above the bound. -/
theorem decides_readBounded {n : Nat} (max : Nat) (h : n < 2 ^ (64 : Nat)) :
    Decides (Count.readBounded max) (Count.write n) (n ≤ max) (·.1 = n) := by
  have hcheck : ∀ (offset value : Nat), value = n →
      Decides (if h : value ≤ max then Pure.pure ⟨value, h⟩
        else Decoder.malformed offset (.countAbove value max)) [] (n ≤ max)
        fun k : { k : Nat // k ≤ max } => k.1 = n := by
    rintro offset value rfl
    by_cases hmax : value ≤ max
    · rw [dif_pos hmax]
      exact (Decides.pure rfl).congr (iff_of_true trivial hmax) fun _ hx => hx ▸ rfl
    · rw [dif_neg hmax]
      exact (Decides.fail fun c => ⟨_, c, rfl⟩).congr (iff_of_false id hmax) fun _ => id
  have hbind := decides_offset.bind fun offset _ => (decides_count h).bind (hcheck offset)
  simp only [List.nil_append, List.append_nil, true_and, bind_assoc] at hbind
  exact hbind

/-- So it is where the bound is not kept with it. -/
theorem decides_read {n : Nat} (max : Nat) (h : n < 2 ^ (64 : Nat)) :
    Decides (Count.read max) (Count.write n) (n ≤ max) (· = n) :=
  (decides_readBounded max h).map fun _ => id

/-! ## Counted bytes and lists -/

/-- Counted bytes are read from what is written for them, if there are not too many. -/
theorem decides_readCountedBounded {bs : Bytes} (max : Nat) (h : bs.length < 2 ^ (64 : Nat)) :
    Decides (Counted.readBounded max) (Counted.write bs) (bs.length ≤ max) (·.1 = bs) := by
  have hbind := (decides_readBounded max h).bind (t := bs) (R := True)
    (f := fun k => do
      let ys ← Decoder.takeSized k.1
      return (⟨ys.1, ys.2.symm ▸ k.2⟩ : { ys : Bytes // ys.length ≤ max }))
    (S := fun y => y.1 = bs) fun k hlength =>
      decides_sized (α := { ys : Bytes // ys.length ≤ max }) (Q := fun y => y.1 = bs)
        (Eq.symm hlength) (fun ys hys => ⟨ys, hys.symm ▸ k.2⟩) rfl
  rw [and_true] at hbind
  exact hbind

/-- So they are where the bound is not kept with them. -/
theorem decides_readCounted {bs : Bytes} (max : Nat) (h : bs.length < 2 ^ (64 : Nat)) :
    Decides (Counted.read max) (Counted.write bs) (bs.length ≤ max) (· = bs) :=
  (decides_readCountedBounded max h).map fun _ => id

section List

variable {item : Decoder α} {encode : β → Bytes} {P : β → Prop} {g : β → α}

/-- Entries in a row are read if each can be read. -/
theorem decides_collect {xs : List β} (h : ∀ x ∈ xs, Decides item (encode x) (P x) (· = g x))
    (acc : List α) :
    Decides (Decoder.collect item xs.length acc) (xs.flatMap encode) (∀ x ∈ xs, P x)
      (· = acc.reverse ++ xs.map g) := by
  induction xs generalizing acc with
  | nil =>
    refine Decides.congr (.pure (Q := (· = acc.reverse ++ [])) ?_) ?_ fun _ => id
    · exact (List.append_nil _).symm
    · exact iff_of_true trivial fun _ h => nomatch h
  | cons x xs ih =>
    have hbind := (h x (.head _)).bind (f := fun y => Decoder.collect item xs.length (y :: acc))
      (S := (· = acc.reverse ++ (x :: xs).map g)) fun y hy =>
        (ih (fun z hz => h z (.tail _ hz)) (y :: acc)).congr Iff.rfl fun ys hys => by
          rw [hys, hy, List.reverse_cons, List.append_assoc, List.singleton_append, List.map_cons]
    exact hbind.congr List.forall_mem_cons.symm fun _ => id

/-- Entries after their number are read if the number is within the limit and each can be read. -/
theorem decides_readList {xs : List β} (max : Nat) (hxs : xs.length < 2 ^ (64 : Nat))
    (h : ∀ x ∈ xs, Decides item (encode x) (P x) (· = g x)) :
    Decides (Counted.readList item max) (Counted.writeList encode xs)
      (xs.length ≤ max ∧ ∀ x ∈ xs, P x) (· = xs.map g) :=
  (decides_read max hxs).bind fun _ hn => hn ▸ decides_collect h []

/-- A list of entries that are read back is read back if it is within the limit. -/
theorem decides_list {item : Decoder α} {encode : α → Bytes} {xs : List α} (max : Nat)
    (hxs : xs.length < 2 ^ (64 : Nat)) (h : ∀ x ∈ xs, Decides item (encode x) True (· = x)) :
    Decides (Counted.readList item max) (Counted.writeList encode xs) (xs.length ≤ max)
      (· = xs) := by
  have hread := decides_readList (g := id) max hxs h
  rw [List.map_id] at hread
  exact hread.congr (and_iff_left fun _ _ => trivial) fun _ => id

end List

end LedgerClient.Wire
