import LedgerClient.Proofs.Ledger.RoundTrip
import LedgerClient.Proofs.Wire.Delimiting

/-!
# What a signature is about

The part of an invocation that is signed says everything about it but its witnesses and, in versions
that do not carry it, what is paid: invocations whose signed parts are the same agree in all else
(`Invocation.signedPart_eq_iff`). Nothing is asked of the invocations but that their signed parts
are shorter than 2⁶⁴ bytes, as everything is that a machine can hold; in particular they may be too
long to be read.
-/

namespace LedgerClient.Ledger

open Wire (Delimits)
open scoped Power

/-- No amount has bytes that start with those of another. -/
theorem delimits_fixed8 : Delimits Fixed8.encode fun _ => True :=
  .of_decides fun a _ => (decides_fixed8 a).map fun _ => id

/-- An attribute is sent in at least one byte. -/
theorem attribute_encode_ne_nil (a : Attribute) : a.encode ≠ [] := List.cons_ne_nil _ _

namespace Invocation

/-- The counts in the signed part fit eight bytes. -/
structure SignedCounts (t : Invocation) : Prop where
  script : t.script.length < 2 ^ (64 : Nat)
  attributes : t.attributes.length < 2 ^ (64 : Nat)
  inputs : t.inputs.length < 2 ^ (64 : Nat)
  outputs : t.outputs.length < 2 ^ (64 : Nat)

/-- Each counted thing takes a byte of the signed part at least. -/
theorem signedCounts_of_length {t : Invocation} (h : t.signedPart.length < 2 ^ (64 : Nat)) :
    t.SignedCounts := by
  have hattributes := length_le_of_ne_nil attribute_encode_ne_nil t.attributes
  have hinputs := length_le_of_ne_nil input_encode_ne_nil t.inputs
  have houtputs := length_le_of_ne_nil output_encode_ne_nil t.outputs
  simp only [signedPart, Wire.Counted.write, Wire.Counted.writeList, List.length_cons,
    List.length_append] at h
  constructor <;> omega

/-- Two invocations agree in everything that is signed. -/
structure SignsAlike (t u : Invocation) : Prop where
  version : t.version = u.version
  script : t.script = u.script
  attributes : t.attributes = u.attributes
  inputs : t.inputs = u.inputs
  outputs : t.outputs = u.outputs
  gas : 1 ≤ t.version → t.gas = u.gas

/-- The signed part is made of what is signed and of nothing else. -/
theorem SignsAlike.signedPart_eq {t u : Invocation} (h : t.SignsAlike u) :
    t.signedPart = u.signedPart := by
  rw [signedPart, signedPart, ← h.version, ← h.script, ← h.attributes, ← h.inputs, ← h.outputs]
  by_cases hcarries : carriesGas t.version = true
  · rw [h.gas (of_decide_eq_true hcarries)]
  · rw [if_neg hcarries, if_neg hcarries]

/-- What is paid is said by the version's bytes for it, if the version has any. -/
theorem gas_of_append_eq {version : UInt8} {a b : Fixed8} {r s : Bytes}
    (h : (if carriesGas version then a.encode else []) ++ r =
      (if carriesGas version then b.encode else []) ++ s) : (1 ≤ version → a = b) ∧ r = s := by
  by_cases hcarries : carriesGas version = true
  · rw [if_pos hcarries, if_pos hcarries] at h
    obtain ⟨hgas, hrest⟩ := delimits_fixed8 trivial trivial h
    exact ⟨fun _ => hgas, hrest⟩
  · rw [if_neg hcarries, if_neg hcarries] at h
    exact ⟨fun hle => absurd (decide_eq_true hle) hcarries, h⟩

/-- The signed part of an invocation is that of no other. -/
theorem signedPart_eq_iff {t u : Invocation} (h : t.signedPart.length < 2 ^ (64 : Nat)) :
    t.signedPart = u.signedPart ↔ t.SignsAlike u := by
  refine ⟨fun heq => ?_, SignsAlike.signedPart_eq⟩
  have ht := signedCounts_of_length h
  have hu := signedCounts_of_length (t := u) (heq ▸ h)
  rw [signedPart, signedPart, List.cons.injEq, List.cons.injEq] at heq
  -- The fields are taken off one by one; each says itself where it ends.
  obtain ⟨-, hversion, hfields⟩ := heq
  obtain ⟨hscript, hfields⟩ := Wire.delimits_counted ht.script hu.script hfields
  rw [← hversion] at hfields
  obtain ⟨hgas, hfields⟩ := gas_of_append_eq hfields
  obtain ⟨hattributes, hfields⟩ :=
    Wire.delimits_list decides_attribute ht.attributes hu.attributes hfields
  obtain ⟨hinputs, hfields⟩ := Wire.delimits_list decides_input ht.inputs hu.inputs hfields
  have houtputs := (Wire.delimits_list decides_output).injective ht.outputs hu.outputs hfields
  exact ⟨hversion, hscript, hattributes, hinputs, houtputs, hgas⟩

/-- A script makes another signed part. -/
theorem signedPart_eq_iff_sample :
    ({ new with script := [0x51] } : Invocation).signedPart ≠
      ({ new with script := [0x51], gas := .ofWord 1 } : Invocation).signedPart := by
  intro heq
  have halike := (signedPart_eq_iff (by decide)).1 heq
  exact absurd (halike.gas (by decide)) (by decide)

end Invocation

end LedgerClient.Ledger
