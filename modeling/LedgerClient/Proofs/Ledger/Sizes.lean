import LedgerClient.Proofs.Ledger.Cosigning
import LedgerClient.Proofs.Wire.Emission
import LedgerClient.Proofs.Wire.Sizes

/-!
# Sizes of ledger values

Each type of the ledger tells its size by a rule of its own, beside the one by which it is written:
an attribute by the layout of its usage, a cosigner by the flags of its scope, an invocation by its
version. Here both rules are held against each other type by type, from the parts to the whole
(`length_encode_eq`), and so all sizes that are told are exact (`sizes_are_exact`).
-/

namespace LedgerClient

open Wire (Form)

/-- The size of an amount is exact. -/
theorem Fixed8.length_encode_eq (a : Fixed8) : a.encode.length = size :=
  Bytes.length_littleEndian _ _

namespace Ledger

/-- The size of a hash is exact. -/
theorem Digest.length_encode_eq {size : Nat} (h : Digest size) : h.encode.length = h.encodedSize :=
  h.length_bytes

/-- The data of an attribute has the length that its usage fixes, if it fixes one. -/
theorem Attribute.length_encode_eq (a : Attribute) : a.encode.length = a.encodedSize := by
  have hadmits := a.admits_length
  rw [Usage.admits] at hadmits
  rw [encode, encodedSize, List.length_cons, Nat.add_comm]
  cases hlayout : a.usage.layout with
  | fixed length =>
    simp only [hlayout, beq_iff_eq] at hadmits
    exact congrArg (1 + ·) hadmits
  | shortCounted =>
    exact congrArg (1 + ·) (Nat.add_comm _ _)
  | counted => exact congrArg (1 + ·) (Wire.Counted.length_write a.data)

/-- The size of an input is exact. -/
theorem Input.length_encode_eq (i : Input) : i.encode.length = i.encodedSize := by
  rw [encode, List.length_append, Digest.length_encode_eq, Bytes.length_littleEndian]
  rfl

/-- The size of an output is exact. -/
theorem Output.length_encode_eq (o : Output) : o.encode.length = o.encodedSize := by
  rw [encode, List.length_append, List.length_append, Digest.length_encode_eq,
    Fixed8.length_encode_eq, Digest.length_encode_eq]
  rfl

/-- The size of a witness is exact. -/
theorem Witness.length_encode_eq (w : Witness) : w.encode.length = w.encodedSize := by
  rw [encode, List.length_append, Wire.Counted.length_write, Wire.Counted.length_write, encodedSize]

/-! ## Cosigners -/

namespace Cosigner

/-- The keys of groups all have one size. -/
theorem length_writeGroups (groups : List GroupKey) :
    (Wire.Counted.writeList GroupKey.bytes groups).length =
      Wire.Count.size groups.length + groups.length * GroupKey.size := by
  have hkeys : ∀ key ∈ groups, key.bytes.length = GroupKey.size := fun key _ => key.length_bytes
  rw [Wire.Counted.length_writeList hkeys, Wire.Counted.listSize_eq, List.map_const',
    List.sum_replicate_nat]

/-- What is written for a cosigner, if anything is, has the size that the flags of the scope ask
for. -/
theorem length_written (c : Cosigner) : c.written.length = c.encodedSize := by
  have hcontracts : ∀ contract ∈ c.contracts, contract.encode.length = contract.encodedSize :=
    fun contract _ => contract.length_encode_eq
  rw [written, List.length_append, List.length_append, List.length_singleton, List.length_append,
    Digest.length_encode_eq, apply_ite List.length, apply_ite List.length,
    Wire.Counted.length_writeList hcontracts, length_writeGroups, List.length_nil, encodedSize,
    Digest.encodedSize]
  omega

/-- A cosigner is sent if its lists are short, and then in as many bytes as its size tells. -/
theorem sizesExactly : Form.SizesExactly Cosigner Short where
  sent_iff := ⟨fun ⟨_, h⟩ => (encode_eq_ok_iff.1 h).1, fun h => ⟨_, encode_eq_ok_iff.2 ⟨h, rfl⟩⟩⟩
  length_eq {c _} h := by
    obtain ⟨-, rfl⟩ := encode_eq_ok_iff.1 h
    exact c.length_written

/-- The size of a list of cosigners is exact, if all of them can be sent. -/
theorem length_of_emitList {cs : List Cosigner} {bs : Bytes}
    (h : (emitList cs).toExcept = .ok bs) : bs.length = Wire.Counted.listSize encodedSize cs := by
  obtain ⟨hnone, rfl⟩ := Wire.Emission.toExcept_eq_ok_iff.1 h
  obtain ⟨hcount, hall⟩ := Wire.Emission.andThen_failure_eq_none_iff.1 hnone
  have hsent := Wire.Emission.all_failure_eq_none_iff.1 hall
  have hlengths : ∀ c ∈ cs, (Wire.Emission.ofExcept c.encode).bytes.length = c.encodedSize :=
    fun c hc => sizesExactly.length_eq
      (Wire.Emission.ofExcept_failure_eq_none_iff.1 (hsent _ (List.mem_map_of_mem hc)))
  rw [emitList, Wire.Emission.andThen_bytes hcount, Wire.Emission.all_bytes hsent,
    List.flatMap_map, List.length_append, List.length_flatMap, List.map_congr_left hlengths,
    Wire.Counted.listSize_eq, ← Wire.Count.length_write]
  rfl

end Cosigner

/-! ## Transactions -/

/-- The size of a transaction is exact. -/
theorem Transaction.length_encode_eq (t : Transaction) : t.encode.length = t.encodedSize := by
  rw [encode, signedPart, List.length_append, List.length_cons,
    Wire.Counted.length_writeList fun a _ => a.length_encode_eq,
    Wire.Counted.length_writeList fun w _ => w.length_encode_eq, encodedSize, Nat.add_comm 1]

/-- The size of an invocation is exact, with what it pays and without. -/
theorem Invocation.length_encode_eq (t : Invocation) : t.encode.length = t.encodedSize := by
  rw [encode, signedPart, List.length_append, List.length_cons, List.length_cons,
    List.length_append, List.length_append, List.length_append, List.length_append,
    Wire.Counted.length_write, apply_ite List.length, Fixed8.length_encode_eq,
    Wire.Counted.length_writeList fun a _ => a.length_encode_eq,
    Wire.Counted.length_writeList fun i _ => i.length_encode_eq,
    Wire.Counted.length_writeList fun o _ => o.length_encode_eq,
    Wire.Counted.length_writeList fun w _ => w.length_encode_eq, encodedSize]
  rw [List.length_nil]
  omega

/-- What is told as the size of a value is the number of bytes that are sent of it, and so it is
with counts, counted bytes and counted lists of any length. Only a cosigner may have no bytes, if
one of its lists is too long. -/
theorem sizes_are_exact :
    (Form.SizesExactly Hash160 ∧ Form.SizesExactly Hash256 ∧ Form.SizesExactly Fixed8 ∧
      Form.SizesExactly Attribute ∧ Form.SizesExactly Input ∧ Form.SizesExactly Output ∧
      Form.SizesExactly Witness ∧ Form.SizesExactly Cosigner Cosigner.Short ∧
      Form.SizesExactly Transaction ∧ Form.SizesExactly Invocation) ∧
    (∀ n : Nat, (Wire.Count.write n).length = Wire.Count.size n) ∧
    (∀ bs : Bytes, (Wire.Counted.write bs).length = Wire.Counted.size bs) ∧
    (∀ (α : Type) (item : α → Bytes) (itemSize : α → Nat) (xs : List α),
      (∀ x ∈ xs, (item x).length = itemSize x) →
        (Wire.Counted.writeList item xs).length = Wire.Counted.listSize itemSize xs) ∧
    ∀ (cs : List Cosigner) (bs : Bytes), (Cosigner.emitList cs).toExcept = .ok bs →
      bs.length = Wire.Counted.listSize Cosigner.encodedSize cs := by
  refine ⟨⟨?_, ?_, ?_, ?_, ?_, ?_, ?_, ?_, ?_, ?_⟩, Wire.Count.length_write,
    Wire.Counted.length_write, fun α item itemSize xs h => Wire.Counted.length_writeList h,
    fun cs bs => Cosigner.length_of_emitList⟩
  · exact .of_ok (fun _ => rfl) Digest.length_encode_eq
  · exact .of_ok (fun _ => rfl) Digest.length_encode_eq
  · exact .of_ok (fun _ => rfl) Fixed8.length_encode_eq
  · exact .of_ok (fun _ => rfl) Attribute.length_encode_eq
  · exact .of_ok (fun _ => rfl) Input.length_encode_eq
  · exact .of_ok (fun _ => rfl) Output.length_encode_eq
  · exact .of_ok (fun _ => rfl) Witness.length_encode_eq
  · exact Cosigner.sizesExactly
  · exact .of_ok (fun _ => rfl) Transaction.length_encode_eq
  · exact .of_ok (fun _ => rfl) Invocation.length_encode_eq

/-- A cosigner with one contract is sent in 42 bytes, and a list of it alone in one more;
three hundred hashes need three bytes for their count. -/
theorem sizes_are_exact_sample :
    (∃ bs, Form.encode (⟨.zero, .customContracts, [.zero], []⟩ : Cosigner) = .ok bs ∧
      bs.length = 42) ∧
    (∃ bs, (Cosigner.emitList [⟨.zero, .customContracts, [.zero], []⟩]).toExcept = .ok bs ∧
      bs.length = 43) ∧
    (Wire.Counted.writeList (fun h : Hash160 => h.encode) (.replicate 300 .zero)).length = 6003 := by
  obtain ⟨⟨-, -, -, -, -, -, -, hcosigner, -, -⟩, -, -, hlists, hcosigners⟩ := sizes_are_exact
  refine ⟨?_, ?_, ?_⟩
  · have hsent : Form.encode (⟨.zero, .customContracts, [.zero], []⟩ : Cosigner) = .ok _ := rfl
    exact ⟨_, hsent, hcosigner.length_eq hsent⟩
  · have hsent : (Cosigner.emitList [⟨.zero, .customContracts, [.zero], []⟩]).toExcept = .ok _ := rfl
    exact ⟨_, hsent, hcosigners _ _ hsent⟩
  · rw [hlists Hash160 _ Digest.encodedSize _ fun h _ => h.length_encode_eq,
      Wire.Counted.listSize_eq, List.map_replicate, List.sum_replicate_nat, List.length_replicate]
    rfl

end Ledger

end LedgerClient
