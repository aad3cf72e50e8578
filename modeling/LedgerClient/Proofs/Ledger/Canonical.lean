import LedgerClient.Proofs.Ledger.Decoded
import LedgerClient.Proofs.Wire.Restating

/-!
# Shortest encodings

Transactions may be read from more bytes than it takes to write them, since counts may be read in
longer forms than they are written in. Each part that is read is restated by the bytes that are
written of it (`restates_transaction`, `restates_invocation`), so that writing what was read never
gives more bytes than there were, and the same ones if it gives as many. What is written is read
back (`Invocation.Legible.run`), and so it is the one shortest encoding of the value
(`written_is_shortest`).
-/

namespace LedgerClient

open Wire (Form Restates)
open scoped Power

/-! ## Writing what was read -/

namespace Wire

/-- Of all inputs for a value, the one that is written of it is the shortest; `subject` names the
kind of the value. -/
structure WritesShortest (α : Type) [Form α] (subject : String) : Prop where
  /-- What was read is written and read again, with no more bytes, or with the same. -/
  rewrites {bs : Bytes} {x : α} : (Form.decode : Decoder α).run subject bs = .ok x →
    ∃ out, Form.encode x = .ok out ∧ (Form.decode : Decoder α).run subject out = .ok x ∧
      out.length ≤ bs.length ∧ (out.length = bs.length → out = bs)
  /-- What is written is the only input of its length, and there is none shorter. -/
  shortest {bs : Bytes} {x : α} : (Form.decode : Decoder α).run subject bs = .ok x →
    ∀ out, Form.encode x = .ok out ↔
      (Form.decode : Decoder α).run subject out = .ok x ∧
        ∀ bs', (Form.decode : Decoder α).run subject bs' = .ok x → out.length ≤ bs'.length
  /-- Two inputs have the same value exactly if the same is written of their values. -/
  agrees {bs bs' : Bytes} {x x' : α} : (Form.decode : Decoder α).run subject bs = .ok x →
    (Form.decode : Decoder α).run subject bs' = .ok x' →
    (x = x' ↔ Form.encode x = Form.encode x')

/-- A form that restates what it reads by what it writes, and reads that back, writes the shortest
input. -/
theorem WritesShortest.of_restates_ok {α : Type} [Form α] {subject : String}
    (hrestates : Restates (Form.decode : Decoder α) fun x out => Form.encode x = .ok out)
    (hback : ∀ {bs out : Bytes} {x : α}, (Form.decode : Decoder α).run subject bs = .ok x →
      Form.encode x = .ok out → (Form.decode : Decoder α).run subject out = .ok x) :
    WritesShortest α subject where
  rewrites := by
    intro bs x hrun
    obtain ⟨out, hcondensed, hencode⟩ := hrestates.of_run hrun
    exact ⟨out, hencode, hback hrun hencode, hcondensed.length_le, hcondensed.eq_of_length_eq⟩
  shortest := by
    intro bs x hrun out
    constructor
    · intro hencode
      refine ⟨hback hrun hencode, fun bs' hrun' => ?_⟩
      obtain ⟨out', hcondensed, hencode'⟩ := hrestates.of_run hrun'
      cases hencode.symm.trans hencode'
      exact hcondensed.length_le
    · rintro ⟨hout, hleast⟩
      obtain ⟨out', hcondensed, hencode⟩ := hrestates.of_run hout
      have hlength := Nat.le_antisymm hcondensed.length_le (hleast _ (hback hrun hencode))
      rwa [hcondensed.eq_of_length_eq hlength] at hencode
  agrees := by
    intro bs bs' x x' hrun hrun'
    constructor
    · rintro rfl
      rfl
    · intro heq
      obtain ⟨out, -, hencode⟩ := hrestates.of_run hrun
      have hboth := hback hrun hencode
      rw [hback hrun' (heq.symm.trans hencode), Except.ok.injEq] at hboth
      exact hboth.symm

/-- A type whose every value can be written and whose decoder can be given what is written instead
of what it read writes the shortest form, if what was read once is read back. -/
theorem WritesShortest.of_restates {α : Type} [Form α] {subject : String} {encode : α → Bytes}
    (hencode : ∀ x : α, Form.encode x = .ok (encode x))
    (hrestates : Restates (Form.decode : Decoder α) fun x out => out = encode x)
    (hback : ∀ {bs : Bytes} {x : α}, (Form.decode : Decoder α).run subject bs = .ok x →
      (Form.decode : Decoder α).run subject (encode x) = .ok x) :
    WritesShortest α subject := by
  refine .of_restates_ok (hrestates.imp ?_) fun {bs out x} hrun hout => ?_
  · rintro x _ rfl
    exact hencode x
  · cases (hencode x).symm.trans hout
    exact hback hrun

end Wire

/-! ## Parts of transactions -/

/-- A word is the two's complement of the amount that it stands for. -/
theorem Fixed8.encode_ofWord {word : Nat} (h : word < 2 ^ (64 : Nat)) :
    (ofWord word).encode = Bytes.littleEndian size word := by
  have hmin := Int.le_bmod (x := word) (m := 2 ^ (64 : Nat)) (by decide)
  have hmax := Int.bmod_lt (x := word) (m := 2 ^ (64 : Nat)) (by decide)
  have hraw : (ofWord word).raw = (word : Int).bmod (2 ^ (64 : Nat)) := by
    rw [ofWord, ofRaw?, dif_pos (by omega), Option.getD_some]
  have hword : (ofWord word).raw % 2 ^ (64 : Nat) = word := by
    rw [hraw]
    exact Int.bmod_emod.trans (Int.emod_eq_of_lt (Int.natCast_nonneg _) (by omega))
  rw [encode, hword, Int.toNat_natCast]

/-- An amount can be rewritten in its place. -/
theorem restates_fixed8 : Restates (Fixed8.ofWord <$> Wire.Decoder.number Fixed8.size)
    fun a out => out = a.encode := by
  rw [← bind_pure_comp]
  refine (Wire.restates_number Fixed8.size).map ?_
  rintro word _ ⟨hword, rfl⟩
  exact (Fixed8.encode_ofWord hword).symm

namespace Ledger

/-- So can a hash. -/
theorem restates_digest (size : Nat) :
    Restates (Digest.decode : Wire.Decoder (Digest size)) fun h out => out = h.encode :=
  Wire.restates_sized (α := Digest size) (Q := fun h out => out = h.encode)
    (fun bs hbs => ⟨bs, hbs⟩) fun _ _ => rfl

/-- So can an input. -/
theorem restates_input : Restates Input.decode fun i out => out = i.encode := by
  refine (restates_digest _).bind ?_
  rintro transaction _ rfl
  refine (Wire.restates_number 2).map ?_
  rintro index _ ⟨hindex, rfl⟩
  have hback : (UInt16.ofNat index).toNat = index := by
    rw [UInt16.toNat_ofNat']
    exact Nat.mod_eq_of_lt hindex
  rw [Input.encode, hback]

/-- So can an output. -/
theorem restates_output : Restates Output.decode fun o out => out = o.encode := by
  refine (restates_digest _).bind ?_
  rintro asset _ rfl
  refine (Wire.restates_number Fixed8.size).bind ?_
  rintro word _ ⟨hword, rfl⟩
  rw [← Fixed8.encode_ofWord hword]
  show Restates (if h : 0 < (Fixed8.ofWord word).raw then _ else _) _
  split
  · refine (restates_digest _).map ?_
    rintro recipient _ rfl
    rw [Output.encode, List.append_assoc]
  · exact .fail fun c => ⟨_, c, rfl⟩

/-- A usage read from a byte is sent as that byte. -/
theorem Usage.tag_of_ofTag? {b : UInt8} {u : Usage} (h : ofTag? b = some u) : u.tag = b := by
  -- Of sixteen bytes in a row each is the first and the number of a slot.
  have hslot : ∀ base, base ≤ b.toNat → b.toNat < base + 16 →
      ∃ k : Fin 16, b = UInt8.ofNat (base + k) := by
    intro base hle hlt
    refine ⟨⟨b.toNat - base, by omega⟩, ?_⟩
    rw [Nat.add_sub_cancel' hle, UInt8.ofNat_toNat]
  have hhash : ∀ k : Fin 16, (hash (UInt8.ofNat (0xa0 + k) &&& 0x0f)).tag =
      UInt8.ofNat (0xa0 + k) := by decide
  have hremark : ∀ k : Fin 16, (remark (UInt8.ofNat (0xf0 + k) &&& 0x0f)).tag =
      UInt8.ofNat (0xf0 + k) := by decide
  have hmax := b.toNat_lt
  rw [ofTag?] at h
  iterate 7
    split at h
    · next hb =>
      cases h
      exact hb.symm
  split at h
  · next hrange =>
    cases h
    simp only [UInt8.le_iff_toNat_le, UInt8.reduceToNat] at hrange
    obtain ⟨k, rfl⟩ := hslot 0xa0 (by omega) (by omega)
    exact hhash k
  split at h
  · next hrange =>
    cases h
    simp only [UInt8.le_iff_toNat_le, UInt8.reduceToNat] at hrange
    obtain ⟨k, rfl⟩ := hslot 0xf0 (by omega) (by omega)
    exact hremark k
  · cases h

/-- The data of an attribute is restated as it is sent after the usage. -/
theorem restates_data (u : Usage) : Restates (Attribute.decodeData u) fun data out =>
    ∀ a : Attribute, a.usage = u → a.data = data.1 → a.encode = u.tag :: out := by
  rw [Attribute.decodeData]
  split
  · next length hlayout =>
    refine (Wire.restates_takeSized length).bind ?_
    rintro ⟨bs, hbs⟩ out hout
    refine .pure ?_
    rintro ⟨_, _, _, _⟩ rfl rfl
    simp only [Attribute.encode, hlayout, List.append_nil]
    exact congrArg _ hout.symm
  · next hlayout =>
    refine Wire.restates_byte.bind ?_
    rintro length _ rfl
    refine (Wire.restates_takeSized length.toNat).bind ?_
    rintro ⟨bs, hbs⟩ out hout
    refine .pure ?_
    rintro ⟨_, _, _, _⟩ rfl rfl
    simp only [Attribute.encode, hlayout, List.append_nil, hbs, UInt8.ofNat_toNat]
    exact congrArg (_ :: length :: ·) hout.symm
  · next hlayout =>
    refine (Wire.restates_readCountedBounded Usage.maxCounted).bind ?_
    rintro ⟨bs, hbs⟩ _ rfl
    refine .pure ?_
    rintro ⟨_, _, _, _⟩ rfl rfl
    simp only [Attribute.encode, hlayout, List.append_nil]

/-- An attribute can be rewritten with the shortest form of its length. -/
theorem restates_attribute : Restates Attribute.decode fun a out => out = a.encode := by
  refine Wire.restates_offset.bind ?_
  rintro offset _ rfl
  refine Wire.restates_byte.bind ?_
  rintro tag _ rfl
  split
  · exact .fail fun c => ⟨_, c, rfl⟩
  · next usage htag =>
    refine (restates_data usage).map ?_
    intro data out hdata
    rw [hdata _ rfl rfl, Usage.tag_of_ofTag? htag]
    rfl

/-- A witness can be rewritten with the shortest forms of its lengths. -/
theorem restates_witness : Restates Witness.decode fun w out => out = w.encode := by
  refine (Wire.restates_readCounted _).bind ?_
  rintro invocation _ rfl
  refine (Wire.restates_readCounted _).map ?_
  rintro verification _ rfl
  rfl

/-! ## Transactions -/

/-- A transaction can be rewritten with the shortest forms of its counts and parts. -/
theorem restates_transaction : Restates Transaction.decode fun t out => out = t.encode := by
  refine Wire.restates_byte.bind ?_
  rintro version _ rfl
  refine (Wire.restates_readList restates_attribute _).bind ?_
  rintro attributes _ rfl
  refine (Wire.restates_readList restates_witness _).map ?_
  rintro witnesses _ rfl
  rfl

/-- So can an invocation. -/
theorem restates_invocation : Restates Invocation.decode fun t out => out = t.encode := by
  rw [Invocation.decode]
  refine Wire.restates_offset.bind ?_
  rintro offset _ rfl
  refine Wire.restates_byte.bind ?_
  rintro tag _ rfl
  split
  · exact .fail fun c => ⟨_, c, rfl⟩
  · next htag =>
    obtain rfl : tag = Limits.invocationTag := not_not.1 htag
    refine Wire.restates_byte.bind ?_
    rintro version _ rfl
    refine (Wire.restates_readCounted _).bind ?_
    rintro script _ rfl
    refine restates_fixed8.bind_ite fun gas _ => ?_
    refine (Wire.restates_readList restates_attribute _).bind ?_
    rintro attributes _ rfl
    refine (Wire.restates_readList restates_input _).bind ?_
    rintro inputs _ rfl
    refine (Wire.restates_readList restates_output _).bind ?_
    rintro outputs _ rfl
    refine (Wire.restates_readList restates_witness _).map ?_
    rintro witnesses _ rfl
    rw [Invocation.encode_eq]

/-- However transactions and invocations are encoded, writing what was read of them gives the one
shortest encoding. -/
theorem written_is_shortest (subject : String) :
    Wire.WritesShortest Transaction subject ∧ Wire.WritesShortest Invocation subject := by
  constructor
  · refine .of_restates (fun _ => rfl) restates_transaction fun hrun => ?_
    have hlegible := yields_transaction.of_run hrun
    exact (hlegible.decides.run_eq_ok_iff subject).2 ⟨trivial, rfl⟩
  · refine .of_restates (fun _ => rfl) restates_invocation fun hrun => ?_
    exact (yields_invocation.of_run hrun).run subject

/-- The number of bytes of a script may take three bytes where one is enough. -/
theorem written_is_shortest_sample : ∃ (t : Invocation) (out : Bytes),
    Invocation.decode.run "invocation" [0xd1, 0, 0xfd, 1, 0, 0x61, 0, 0, 0, 0] = .ok t ∧
      Form.encode t = .ok out ∧ Invocation.decode.run "invocation" out = .ok t ∧
      out.length = 8 := by
  obtain ⟨-, hinvocation⟩ := written_is_shortest "invocation"
  have hrun : Invocation.decode.run "invocation" [0xd1, 0, 0xfd, 1, 0, 0x61, 0, 0, 0, 0] =
      .ok { Invocation.new with version := 0, script := [0x61] } := rfl
  obtain ⟨out, hencode, hback, -⟩ := hinvocation.rewrites hrun
  refine ⟨_, out, hrun, hencode, hback, ?_⟩
  cases hencode
  rfl

end Ledger

end LedgerClient
