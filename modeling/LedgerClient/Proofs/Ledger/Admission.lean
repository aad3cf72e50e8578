import LedgerClient.Proofs.Ledger.Canonical
import LedgerClient.Proofs.Wire.Delimiting
import LedgerClient.Proofs.Wire.Spelling

/-!
# Which attributes there are

An attribute is made of a usage and data (`Attribute.ofData`), or read from bytes. Making asks
whether the slot of the usage exists; reading asks whether some usage has the byte at hand. The two
come to the same (`Usage.slotExists_iff`), although usages are sent by the low four bits of their
slot, so that one whose slot does not exist has the byte of one that does. Each usage admits data of
the lengths that its form on the wire can say (`Usage.admits_iff`), so that making and reading give
the same attributes (`attributes_admitted_alike`).
-/

namespace LedgerClient.Ledger

open Wire (Form Delimits Judges Reads SpellsCount)

namespace Usage

/-- Bytes stand for the usages whose slots exist, and each for the one that is sent as it. -/
theorem ofTag?_eq_some_iff {b : UInt8} {u : Usage} :
    ofTag? b = some u ↔ u.slotExists = true ∧ u.tag = b := by
  constructor
  · exact fun h => ⟨slotExists_of_ofTag? h, tag_of_ofTag? h⟩
  · rintro ⟨hslot, rfl⟩
    exact ofTag?_tag hslot

/-- The slot of a usage exists if some byte stands for the usage. -/
theorem slotExists_iff {u : Usage} : u.slotExists = true ↔ ∃ b, ofTag? b = some u := by
  simp only [ofTag?_eq_some_iff, exists_and_left, exists_eq', and_true]

/-- Bytes that carry data in a layout. A count may stand in any of its forms. -/
inductive Layout.Spells (data : Bytes) : Layout → Bytes → Prop where
  | fixed : Spells data (.fixed data.length) data
  | shortCounted (h : data.length ≤ 255) :
    Spells data .shortCounted (UInt8.ofNat data.length :: data)
  | counted {head : Bytes} (hhead : SpellsCount data.length head) (h : data.length ≤ maxCounted) :
    Spells data .counted (head ++ data)

/-- A usage admits the data that its layout can carry. -/
theorem admits_iff {u : Usage} {data : Bytes} :
    u.admits data.length = true ↔ ∃ bs, u.layout.Spells data bs := by
  rw [admits]
  cases u.layout with
  | fixed length =>
    rw [beq_iff_eq]
    constructor
    · rintro rfl
      exact ⟨data, .fixed⟩
    · rintro ⟨_, ⟨⟩⟩
      rfl
  | shortCounted =>
    rw [decide_eq_true_iff]
    constructor
    · exact fun h => ⟨_, .shortCounted h⟩
    · rintro ⟨_, _ | h⟩
      exact h
  | counted =>
    rw [decide_eq_true_iff]
    constructor
    · intro h
      have hmark : (0xFD, 2) ∈ Wire.countMarks := by decide
      exact ⟨_, .counted (.marked hmark (Nat.lt_succ_of_le h)) h⟩
    · rintro ⟨_, _ | _ | ⟨-, h⟩⟩
      exact h

end Usage

namespace Attribute

/-! ## Making attributes -/

section
variable {usage : Usage} {data : Bytes}

/-- An attribute is made of its own usage and data, and of no others. -/
theorem ofData_eq_ok_iff {a : Attribute} :
    ofData usage data = .ok a ↔ a.usage = usage ∧ a.data = data := by
  rw [ofData]
  constructor
  · intro h
    split at h
    · split at h
      · cases h
        exact ⟨rfl, rfl⟩
      · cases h
    · cases h
  · rintro ⟨rfl, rfl⟩
    rw [dif_pos a.slotExists_usage, dif_pos a.admits_length]

/-- An attribute is made if there is the slot and the usage admits so many bytes. -/
theorem exists_ofData_iff :
    (∃ a, ofData usage data = .ok a) ↔
      usage.slotExists = true ∧ usage.admits data.length = true := by
  simp only [ofData_eq_ok_iff]
  constructor
  · rintro ⟨a, rfl, rfl⟩
    exact ⟨a.slotExists_usage, a.admits_length⟩
  · rintro ⟨hslot, hlength⟩
    exact ⟨⟨usage, data, hslot, hlength⟩, rfl, rfl⟩

end

/-! ## Reading attributes -/

/-- Bytes that are read as an attribute: the byte of its usage, and its data as that asks. -/
inductive Spells (a : Attribute) : Bytes → Prop where
  | mk {tag : UInt8} {body : Bytes} (htag : Usage.ofTag? tag = some a.usage)
    (hbody : a.usage.layout.Spells a.data body) : Spells a (tag :: body)

/-- The data of a usage is read from its spellings in the layout of the usage. -/
theorem reads_data (u : Usage) :
    Reads (decodeData u) fun data bs => u.layout.Spells data.1 bs := by
  rw [decodeData]
  split
  -- The usage fixes the length.
  · next length hlayout =>
    refine (Wire.reads_takeSized length).map.congr fun data bs => ?_
    simp only [hlayout]
    constructor
    · rintro ⟨⟨bs, rfl⟩, rfl, rfl⟩
      exact .fixed
    · rintro ⟨⟩
      exact ⟨⟨data.1, rfl⟩, rfl, rfl⟩
  -- One byte tells the length.
  · next hlayout =>
    refine (Wire.reads_byte.bind fun length =>
      (Wire.reads_takeSized length.toNat).map).congr fun data bs => ?_
    simp only [hlayout]
    constructor
    · rintro ⟨length, _, bs, rfl, ⟨⟨_, hbs⟩, rfl, rfl⟩, rfl⟩
      have hlength : UInt8.ofNat bs.length = length := by rw [hbs, UInt8.ofNat_toNat]
      have hle : bs.length ≤ 255 := hbs.trans_le (Nat.le_of_lt_succ length.toNat_lt)
      have hspells := Usage.Layout.Spells.shortCounted hle
      rw [hlength] at hspells
      exact hspells
    · rintro (_ | hle)
      have hlength : data.1.length = (UInt8.ofNat data.1.length).toNat := by
        rw [UInt8.toNat_ofNat', Nat.mod_eq_of_lt (Nat.lt_succ_of_le hle)]
      exact ⟨_, _, data.1, rfl, ⟨⟨data.1, hlength⟩, rfl, rfl⟩, rfl⟩
  -- A count tells the length, in any of its forms.
  · next hlayout =>
    refine (Wire.reads_readCountedBounded Usage.maxCounted).map.congr fun data bs => ?_
    simp only [hlayout]
    constructor
    · rintro ⟨⟨bs, hbs⟩, ⟨head, hhead, rfl⟩, rfl⟩
      exact .counted hhead hbs
    · rintro (_ | _ | ⟨hhead, hle⟩)
      exact ⟨⟨data.1, hle⟩, ⟨_, hhead, rfl⟩, rfl⟩

/-- What is read as an attribute are its spellings. -/
theorem reads_decode : Reads decode Spells := by
  rw [decode]
  refine Reads.offset_bind fun offset => ?_
  refine (Wire.reads_byte.bind (H := fun tag a body => Spells a (tag :: body))
    fun tag => ?_).congr fun a bs => ?_
  · split
    · next hnone =>
      refine .fail (fun c => ⟨_, c, rfl⟩) ?_
      rintro a body ⟨htag, -⟩
      cases hnone.symm.trans htag
    · next usage hsome =>
      refine (reads_data usage).map.congr fun a body => ?_
      constructor
      · rintro ⟨data, hbody, rfl⟩
        exact .mk hsome hbody
      · rintro ⟨htag, hbody⟩
        obtain rfl : usage = a.usage := Option.some.inj (hsome.symm.trans htag)
        exact ⟨⟨a.data, a.admits_length⟩, hbody, rfl⟩
  · constructor
    · rintro ⟨tag, _, body, rfl, hspells, rfl⟩
      exact hspells
    · rintro ⟨htag, hbody⟩
      exact ⟨_, _, _, rfl, .mk htag hbody, rfl⟩

/-- What is written for an attribute is read as that attribute. -/
theorem run_encode (a : Attribute) (subject : String) :
    (Form.decode : Wire.Decoder Attribute).run subject a.encode = .ok a :=
  (decides_attribute a).run subject

/-- So no encoding of an attribute is the start of another. -/
theorem delimits_encode : Delimits encode fun _ => True :=
  .of_decides fun a _ => decides_attribute a

/-! ## Making and reading -/

/-- Making an attribute of usage and data and reading one from bytes come to the same attributes;
`subject` names what is read. -/
structure AdmittedAlike (subject : String) : Prop where
  /-- Attributes are made under the usages that some byte stands for, of the data that can be sent
  under them. -/
  made_iff {usage : Usage} {data : Bytes} : (∃ a, ofData usage data = .ok a) ↔
    (∃ tag, Usage.ofTag? tag = some usage) ∧ ∃ body, usage.layout.Spells data body
  /-- Attributes are read from the byte of their usage, followed by their data. -/
  read_iff {bs : Bytes} {a : Attribute} :
    (Form.decode : Wire.Decoder Attribute).run subject bs = .ok a ↔ a.Spells bs
  /-- What was made has the usage and the data, and can be sent and read back. -/
  reads_made {usage : Usage} {data : Bytes} {a : Attribute} : ofData usage data = .ok a →
    a.usage = usage ∧ a.data = data ∧
      ∃ bs, Form.encode a = .ok bs ∧ (Form.decode : Wire.Decoder Attribute).run subject bs = .ok a
  /-- What was read can be made. -/
  makes_read {bs : Bytes} {a : Attribute} :
    (Form.decode : Wire.Decoder Attribute).run subject bs = .ok a → ofData a.usage a.data = .ok a
  /-- What was made is never the start of something else that was made. -/
  eq_of_prefix {usage usage' : Usage} {data data' : Bytes} {a a' : Attribute} {bs bs' : Bytes} :
    ofData usage data = .ok a → ofData usage' data' = .ok a' →
    Form.encode a = .ok bs → Form.encode a' = .ok bs' → bs <+: bs' → a = a'

/-- Attributes are made of the usages and data that the constructor takes, written as such, and read
from exactly those bytes that say so. Either way the same attributes are admitted, and none starts
with the encoding of another. -/
theorem attributes_admitted_alike (subject : String) : AdmittedAlike subject where
  made_iff := by
    intro usage data
    rw [exists_ofData_iff, Usage.slotExists_iff, Usage.admits_iff]
  read_iff := reads_decode.run_eq_ok_iff
  reads_made := by
    intro usage data a h
    obtain ⟨husage, hdata⟩ := ofData_eq_ok_iff.1 h
    exact ⟨husage, hdata, a.encode, rfl, a.run_encode subject⟩
  -- What making checks is part of every attribute, and so the decoder had to prove it.
  makes_read := fun _ => ofData_eq_ok_iff.2 ⟨rfl, rfl⟩
  eq_of_prefix := by
    rintro _ _ _ _ a a' _ _ - - ⟨⟩ ⟨⟩ hstart
    exact delimits_encode.eq_of_prefix trivial trivial hstart

/-- A slot that does not exist has the byte of one that does; an attribute is made and read under
the latter only. -/
theorem attributes_admitted_alike_sample :
    (Usage.hash 0x11).tag = (Usage.hash 0x01).tag ∧
    (¬ ∃ a, ofData (.hash 0x11) (List.replicate 32 0) = .ok a) ∧
    ∃ a, ofData (.hash 0x01) (List.replicate 32 0) = .ok a ∧
      (Form.decode : Wire.Decoder Attribute).run "attribute" (0xa1 :: List.replicate 32 0) =
        .ok a := by
  have halike := attributes_admitted_alike "attribute"
  refine ⟨rfl, ?_, ?_⟩
  · rw [halike.made_iff]
    rintro ⟨⟨tag, htag⟩, -⟩
    have hslot := Usage.slotExists_of_ofTag? htag
    contradiction
  · let a : Attribute := ⟨.hash 0x01, List.replicate 32 0, rfl, rfl⟩
    have hspells : a.Spells (0xa1 :: List.replicate 32 0) := .mk rfl .fixed
    have hread := halike.read_iff.2 hspells
    exact ⟨a, halike.makes_read hread, hread⟩

end Attribute

end LedgerClient.Ledger
