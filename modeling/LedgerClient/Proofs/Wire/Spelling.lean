import LedgerClient.Proofs.Wire.Reading

/-!
# All that a decoder reads

Where one value can be read from several byte strings, a relation lists them: `G x bs` says that
`bs` is a spelling of `x`. `Reads d G` says that the decoder `d` reads these spellings and nothing
else. So it is known of any input whether it is read to its end, and as what (`Reads.whole_iff`).
The spellings that decoders in sequence read are those of the first followed by those of the second
(`Reads.bind`); a step that `Judges` what was read takes no bytes, and only says which values the
bytes before it spell (`Reads.bind_judges`).

The place at which a decoder stands is no part of what it reads, so that a decoder that asks for its
offset is described by what it does at any offset (`Reads.offset_bind`).

Counts are where one value has several spellings: each form that holds a count is read
(`reads_count`), although only the shortest is written.
-/

namespace LedgerClient.Wire

open scoped Power

variable {ε ε' α β : Type}

namespace Decides

/-- Renaming errors changes neither what is read nor whether. -/
theorem mapError {d : DecoderOf ε α} {bs : Bytes} {P : Prop} {Q : α → Prop} (h : Decides d bs P Q)
    (f : ε → ε') : Decides (Decoder.mapError f d) bs P Q := by
  intro offset rest
  obtain ⟨hok, herror⟩ := h offset rest
  show (P → ∃ x, Q x ∧ EStateM.adaptExcept f d _ = _) ∧
    (¬ P → ∃ e c, EStateM.adaptExcept f d _ = _)
  rw [EStateM.adaptExcept]
  constructor
  · intro hP
    obtain ⟨x, hx, hd⟩ := hok hP
    exact ⟨x, hx, by rw [hd]⟩
  · intro hP
    obtain ⟨e, c, hd⟩ := herror hP
    exact ⟨f e, c, by rw [hd]⟩

end Decides

/-- The decoder reads every spelling as its value, whatever follows, and nothing else. -/
structure Reads (d : DecoderOf ε α) (G : α → Bytes → Prop) : Prop where
  sound {c c' : Cursor} {x : α} : d c = .ok x c' → ∃ bs, c.rest = bs ++ c'.rest ∧ G x bs
  complete {x : α} {bs : Bytes} : G x bs → Decides d bs True (· = x)

/-- The decoder takes no bytes, and gives the one value with `R`, if there is one. -/
def Judges (d : DecoderOf ε α) (R : α → Prop) : Prop := Reads d fun x bs => R x ∧ bs = []

/-- The spellings may be put in other words. -/
theorem Reads.congr {d : DecoderOf ε α} {G H : α → Bytes → Prop} (h : Reads d G)
    (hGH : ∀ x bs, G x bs ↔ H x bs) : Reads d H where
  sound hd := by
    obtain ⟨bs, hrest, hG⟩ := h.sound hd
    exact ⟨bs, hrest, (hGH _ bs).1 hG⟩
  complete hH := h.complete ((hGH _ _).2 hH)

/-- A decoder that fails on every input reads nothing. -/
theorem Reads.fail {d : DecoderOf ε α} {G : α → Bytes → Prop} (h : ∀ c, ∃ e c', d c = .error e c')
    (hG : ∀ x bs, ¬ G x bs) : Reads d G where
  sound {c _ _} hd := by
    obtain ⟨e, c'', herror⟩ := h c
    cases hd.symm.trans herror
  complete hx := absurd hx (hG _ _)

namespace Judges

/-- A value that is given is judged by being that value. -/
theorem pure {R : α → Prop} {x : α} (h : ∀ y, R y ↔ y = x) :
    Judges (Pure.pure x : DecoderOf ε α) R where
  sound := by
    rintro c _ _ ⟨⟩
    exact ⟨[], rfl, (h x).2 rfl, rfl⟩
  complete := by
    rintro y _ ⟨hy, rfl⟩
    exact .pure ((h y).1 hy).symm

/-- A decoder that always fails judges that there is no value. -/
theorem fail {d : DecoderOf ε α} {R : α → Prop} (h : ∀ c, ∃ e c', d c = .error e c')
    (hR : ∀ x, ¬ R x) : Judges d R :=
  Reads.fail h fun x _ hx => hR x hx.1

end Judges

namespace Reads

variable {d : DecoderOf ε α} {G : α → Bytes → Prop}

/-- The spellings of two decoders are spellings of the one and of the other, one behind the
other. -/
theorem bind {f : α → DecoderOf ε β} {H : α → β → Bytes → Prop} (h : Reads d G)
    (hf : ∀ x, Reads (f x) (H x)) :
    Reads (d >>= f) fun y bs => ∃ x s t, G x s ∧ H x y t ∧ bs = s ++ t where
  sound hd := by
    obtain ⟨x, c'', hx, hy⟩ := exists_of_bind_eq_ok hd
    obtain ⟨s, hs, hG⟩ := h.sound hx
    obtain ⟨t, ht, hH⟩ := (hf x).sound hy
    exact ⟨s ++ t, by rw [hs, ht, List.append_assoc], x, s, t, hG, hH, rfl⟩
  complete := by
    rintro y _ ⟨x, s, t, hG, hH, rfl⟩
    have hbind := (h.complete hG).bind (f := f) fun _ hx => hx ▸ (hf x).complete hH
    exact hbind.congr (and_self_iff) fun _ => id

/-- A step that takes no bytes only says what the bytes before it mean. -/
theorem bind_judges {f : α → DecoderOf ε β} {R : α → β → Prop} (h : Reads d G)
    (hf : ∀ x, Judges (f x) (R x)) : Reads (d >>= f) fun y bs => ∃ x, G x bs ∧ R x y := by
  refine (h.bind hf).congr fun y bs => ?_
  constructor
  · rintro ⟨x, s, _, hG, ⟨hR, rfl⟩, rfl⟩
    exact ⟨x, by rwa [List.append_nil], hR⟩
  · rintro ⟨x, hG, hR⟩
    exact ⟨x, bs, [], hG, ⟨hR, rfl⟩, (List.append_nil bs).symm⟩

/-- What is made of a value is spelled as the value. -/
theorem map {f : α → β} (h : Reads d G) :
    Reads (d >>= fun x => Pure.pure (f x)) fun y bs => ∃ x, G x bs ∧ y = f x :=
  h.bind_judges fun _ => .pure fun _ => Iff.rfl

/-- Renaming errors changes no spelling. -/
theorem mapError (h : Reads d G) (f : ε → ε') : Reads (Decoder.mapError f d) G where
  sound hd := h.sound (of_mapError_eq_ok hd)
  complete hG := (h.complete hG).mapError f

/-- The spellings are the same at all places if they are the same at each. -/
theorem offset_bind {f : Nat → DecoderOf ε α} (h : ∀ offset, Reads (f offset) G) :
    Reads (Decoder.offset >>= f) G where
  sound {c _ _} hd := (h c.offset).sound hd
  complete hG offset rest := (h offset).complete hG offset rest

/-- An input is read to its end exactly if it is a spelling. -/
theorem whole_iff (h : Reads d G) {bs : Bytes} {x : α} :
    (∃ c, d (.start bs) = .ok x c ∧ c.rest = []) ↔ G x bs := by
  constructor
  · rintro ⟨c, hd, hend⟩
    obtain ⟨bs', hrest, hG⟩ := h.sound hd
    rw [hend, List.append_nil] at hrest
    obtain rfl : bs = bs' := hrest
    exact hG
  · intro hG
    have hd := (h.complete hG).read 0 []
    rw [List.append_nil] at hd
    exact ⟨_, hd, rfl⟩

/-- A whole input is read as a value if it is a spelling of it. -/
theorem run_eq_ok_iff {d : Decoder α} (h : Reads d G) {subject : String} {bs : Bytes} {x : α} :
    d.run subject bs = .ok x ↔ G x bs := by
  constructor
  · exact fun hrun => h.whole_iff.1 (exists_of_run_eq_ok hrun)
  · exact fun hG => (h.complete hG).run subject

end Reads

/-! ## The smallest decoders -/

/-- A byte is spelled by itself. -/
theorem reads_byte : Reads Decoder.byte fun b bs => bs = [b] where
  sound hd := ⟨[_], (byte_eq_ok_iff.1 hd).1, rfl⟩
  complete := by
    rintro _ _ rfl
    exact decides_byte _

/-- So are so many bytes. -/
theorem reads_takeSized (n : Nat) : Reads (Decoder.takeSized n) fun x bs => bs = x.1 where
  sound hd := ⟨_, (takeSized_eq_ok_iff.1 hd).1, rfl⟩
  complete := by
    rintro ⟨bs, hbs⟩ _ rfl
    exact (decides_takeSized hbs).congr Iff.rfl fun _ hx => Subtype.ext hx

/-- So they are where their number is not kept with them. -/
theorem reads_take (n : Nat) : Reads (Decoder.take n) fun x bs => x.length = n ∧ bs = x := by
  refine (reads_takeSized n).map.congr fun x bs => ?_
  constructor
  · rintro ⟨⟨y, hy⟩, rfl, rfl⟩
    exact ⟨hy, rfl⟩
  · rintro ⟨hx, rfl⟩
    exact ⟨⟨bs, hx⟩, rfl, rfl⟩

/-- A number is spelled by its bytes in the width, if they hold it. -/
theorem reads_number (width : Nat) :
    Reads (Decoder.number width) fun n bs => n < 256 ^ width ∧ bs = Bytes.littleEndian width n := by
  refine (reads_take width).map.congr fun n bs => ?_
  constructor
  · rintro ⟨_, ⟨rfl, rfl⟩, rfl⟩
    exact ⟨Bytes.toNat_lt bs, (Bytes.littleEndian_toNat bs).symm⟩
  · rintro ⟨hn, rfl⟩
    exact ⟨_, ⟨Bytes.length_littleEndian width n, rfl⟩, (Bytes.toNat_littleEndian hn).symm⟩

/-! ## Counts -/

/-- Bytes for a count: a single one, or a mark and so many bytes as it says, be they needed or
not. -/
inductive SpellsCount : Nat → Bytes → Prop where
  | single {b : UInt8} (h : b.toNat < 0xFD) : SpellsCount b.toNat [b]
  | marked {mark : UInt8} {width n : Nat} (hmark : (mark, width) ∈ countMarks)
    (h : n < 256 ^ width) : SpellsCount n (mark :: Bytes.littleEndian width n)

/-- What follows a mark is read in the width that the mark says. -/
theorem reads_marked {mark : UInt8} {width : Nat} (hmark : (mark, width) ∈ countMarks) :
    Reads (Decoder.number width) fun n bs => SpellsCount n (mark :: bs) := by
  refine (reads_number width).congr fun n bs => ?_
  constructor
  · rintro ⟨hn, rfl⟩
    exact .marked hmark hn
  · intro hspells
    rw [mem_countMarks_iff] at hmark
    cases hspells with
    | single hsmall => obtain ⟨rfl, -⟩ | ⟨rfl, -⟩ | ⟨rfl, -⟩ := hmark <;> contradiction
    | @marked _ width' _ hmark' hn =>
      obtain rfl : width' = width := by
        rw [mem_countMarks_iff] at hmark'
        obtain ⟨rfl, rfl⟩ | ⟨rfl, rfl⟩ | ⟨rfl, rfl⟩ := hmark <;> simpa using hmark'
      exact ⟨hn, rfl⟩

/-- Behind its first byte a count is spelled by what that byte asks for. -/
theorem reads_readFrom (mark : UInt8) :
    Reads (Count.readFrom mark) fun n bs => SpellsCount n (mark :: bs) := by
  rw [Count.readFrom]
  split
  · next h => exact h ▸ reads_marked (by decide)
  split
  · next h => exact h ▸ reads_marked (by decide)
  split
  · next h => exact h ▸ reads_marked (by decide)
  · next h₁ h₂ h₃ =>
    have hsmall : mark.toNat < 0xFD := by
      have := mark.toNat_lt
      simp only [← UInt8.toNat_inj, UInt8.reduceToNat] at h₁ h₂ h₃
      omega
    refine Reads.congr (Judges.pure (R := (· = mark.toNat)) fun _ => Iff.rfl) fun n bs => ?_
    constructor
    · rintro ⟨rfl, rfl⟩
      exact .single hsmall
    · intro hspells
      cases hspells with
      | single => exact ⟨rfl, rfl⟩
      | marked hmark => simp [mem_countMarks_iff, h₁, h₂, h₃] at hmark

/-- A count is read from all of its forms. -/
theorem reads_count : Reads (Decoder.byte >>= Count.readFrom) SpellsCount := by
  refine (reads_byte.bind reads_readFrom).congr fun n bs => ?_
  constructor
  · rintro ⟨mark, _, t, rfl, hspells, rfl⟩
    exact hspells
  · intro hspells
    have hne : bs ≠ [] := by cases hspells <;> exact List.cons_ne_nil _ _
    obtain ⟨mark, t, rfl⟩ := List.exists_cons_of_ne_nil hne
    exact ⟨mark, [mark], t, rfl, hspells, rfl⟩

/-- A count within the bound is read from all its spellings. -/
theorem reads_readBounded (max : Nat) :
    Reads (Count.readBounded max) fun n bs => SpellsCount n.1 bs := by
  have hbounded : ∀ offset value, Judges (if h : value ≤ max then Pure.pure ⟨value, h⟩
        else Decoder.malformed offset (.countAbove value max))
      fun n : { n : Nat // n ≤ max } => value = n.1 := by
    intro offset value
    split
    · exact .pure fun n => ⟨fun h => Subtype.ext h.symm, fun h => congrArg Subtype.val h.symm⟩
    · next hlarge => exact .fail (fun c => ⟨_, c, rfl⟩) fun n h => hlarge (h ▸ n.2)
  rw [Count.readBounded]
  refine .offset_bind fun offset => ?_
  rw [← bind_assoc]
  exact (reads_count.bind_judges (hbounded offset)).congr fun n bs => by simp

/-- Bytes are read after any form of their number. -/
theorem reads_readCountedBounded (max : Nat) :
    Reads (Counted.readBounded max) fun x bs =>
      ∃ head, SpellsCount x.1.length head ∧ bs = head ++ x.1 := by
  have htake : ∀ n : { n : Nat // n ≤ max }, Reads (do
        let ⟨bs, hbs⟩ ← Decoder.takeSized n.1
        return (⟨bs, hbs.symm ▸ n.2⟩ : { bs : Bytes // bs.length ≤ max }))
      fun x t => n.1 = x.1.length ∧ t = x.1 := by
    intro n
    refine (reads_takeSized n.1).map.congr fun x t => ?_
    constructor
    · rintro ⟨⟨bs, hbs⟩, rfl, rfl⟩
      exact ⟨hbs.symm, rfl⟩
    · rintro ⟨hlength, rfl⟩
      exact ⟨⟨x.1, hlength.symm⟩, rfl, rfl⟩
  refine ((reads_readBounded max).bind htake).congr fun x bs => ?_
  constructor
  · rintro ⟨n, head, _, hhead, ⟨hlength, rfl⟩, rfl⟩
    exact ⟨head, hlength ▸ hhead, rfl⟩
  · rintro ⟨head, hhead, rfl⟩
    exact ⟨⟨x.1.length, x.2⟩, head, x.1, hhead, ⟨rfl, rfl⟩, rfl⟩

end LedgerClient.Wire
