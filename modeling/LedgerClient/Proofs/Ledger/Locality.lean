import LedgerClient.Ledger.WireForm
import LedgerClient.Proofs.Script.Locality
import Mathlib.Logic.Relation

/-!
# Reads of an input

Whatever is sent is read by a local decoder, as are the pushes and calls of a script
(`IsRead.isLocal`). So is every place that reads lead to, one after another and failed ones among
them, a place in the input, behind all places before it (`reads_stay_within`).
-/

namespace LedgerClient

open Wire (Cursor Decoder Form Local)

namespace Ledger

/-- A hash is read from a fixed number of bytes. -/
theorem local_digest {size : Nat} : Local (Digest.decode : Decoder (Digest size)) :=
  (Wire.local_takeSized size).bind fun ⟨_, _⟩ => .pure _

/-- An amount is read from a word. -/
theorem local_amount : Local (Form.decode : Decoder Fixed8) := by
  show Local (Fixed8.ofWord <$> Decoder.number Fixed8.size)
  rw [← bind_pure_comp]
  exact (Wire.local_number Fixed8.size).map

/-- An input is read from a hash and a number, one behind the other. -/
theorem local_input : Local Input.decode :=
  local_digest.bind fun _ => (Wire.local_number 2).map

/-- Whether an output is refused for its amount depends on bytes that were read. -/
theorem local_output : Local Output.decode := by
  refine local_digest.bind fun _ => (Wire.local_number Fixed8.size).bind fun word => ?_
  show Local (if h : 0 < (Fixed8.ofWord word).raw then _ else _)
  split
  · exact local_digest.map
  · exact .throw _

/-- In each layout the data of an attribute ends where the bytes before it say. -/
theorem local_data (u : Usage) : Local (Attribute.decodeData u) := by
  rw [Attribute.decodeData]
  split
  · exact (Wire.local_takeSized _).bind fun ⟨_, _⟩ => .pure _
  · exact Wire.local_byte.bind fun _ => (Wire.local_takeSized _).bind fun ⟨_, _⟩ => .pure _
  · exact (Wire.local_readCountedBounded _).bind fun ⟨_, _⟩ => .pure _

/-- So does an attribute. -/
theorem local_attribute : Local Attribute.decode := by
  refine Wire.local_offset.bind fun _ => Wire.local_byte.bind fun tag => ?_
  split
  · exact Wire.local_malformed _ _
  · exact (local_data _).bind fun ⟨_, _⟩ => .pure _

/-- A witness is read from two scripts with their lengths. -/
theorem local_witness : Local Witness.decode :=
  (Wire.local_readCounted _).bind fun _ => (Wire.local_readCounted _).map

/-- A key is read from a fixed number of bytes. -/
theorem local_groupKey : Local GroupKey.decode :=
  (Wire.local_takeSized 33).bind fun ⟨_, _⟩ => .pure _

/-- Which lists of a cosigner are read depends on the byte of its scope. -/
theorem local_cosigner : Local Cosigner.decode := by
  refine local_digest.bind fun _ => Wire.local_byte.bind fun flags => ?_
  split
  · exact .throw _
  · exact .bind_ite (Wire.local_readList local_digest _) fun _ =>
      .bind_ite (Wire.local_readList local_groupKey _) fun _ => .pure _

/-- The lists of a transaction tell where they end. -/
theorem local_transaction : Local Transaction.decode :=
  Wire.local_byte.bind fun _ =>
    (Wire.local_readList local_attribute _).bind fun _ =>
      (Wire.local_readList local_witness _).map

/-- So do the script and the lists of an invocation. -/
theorem local_invocation : Local Invocation.decode := by
  rw [Invocation.decode]
  refine Wire.local_offset.bind fun _ => Wire.local_byte.bind fun tag => ?_
  split
  · exact Wire.local_malformed _ _
  refine Wire.local_byte.bind fun version => (Wire.local_readCounted _).bind fun _ => ?_
  exact .bind_ite local_amount fun _ =>
    (Wire.local_readList local_attribute _).bind fun _ =>
      (Wire.local_readList local_input _).bind fun _ =>
        (Wire.local_readList local_output _).bind fun _ =>
          (Wire.local_readList local_witness _).map

end Ledger

/-! ## Reads one after another -/

open Ledger (Hash160 Hash256)

/-- The decoders of what is sent. -/
inductive DecodesValue : {α : Type} → Decoder α → Prop
  | hash160 : DecodesValue (Form.decode : Decoder Hash160)
  | hash256 : DecodesValue (Form.decode : Decoder Hash256)
  | amount : DecodesValue (Form.decode : Decoder Fixed8)
  | attr : DecodesValue (Form.decode : Decoder Ledger.Attribute)
  | input : DecodesValue (Form.decode : Decoder Ledger.Input)
  | output : DecodesValue (Form.decode : Decoder Ledger.Output)
  | witness : DecodesValue (Form.decode : Decoder Ledger.Witness)
  | cosigner : DecodesValue (Form.decode : Decoder Ledger.Cosigner)
  | transaction : DecodesValue (Form.decode : Decoder Ledger.Transaction)
  | invocation : DecodesValue (Form.decode : Decoder Ledger.Invocation)

/-- The reads that end by themselves: of bytes and numbers, of counts and what they count, of
values, and of the instructions of a script. -/
inductive IsRead : {α : Type} → Decoder α → Prop
  | byte : IsRead Decoder.byte
  | peek : IsRead Decoder.peek
  | take (n : Nat) : IsRead (Decoder.take n)
  | number (width : Nat) : IsRead (Decoder.number width)
  | count (max : Nat) : IsRead (Wire.Count.read max)
  | counted (max : Nat) : IsRead (Wire.Counted.read max)
  | text (max : Nat) : IsRead (Wire.Counted.readText max)
  | value {α : Type} {d : Decoder α} (h : DecodesValue d) : IsRead d
  | list {α : Type} {item : Decoder α} (h : DecodesValue item) (max : Nat) :
      IsRead (Wire.Counted.readList item max)
  | pushedInteger : IsRead Script.readInteger
  | pushedData : IsRead Script.readData
  | pushedText : IsRead Script.readText
  | sysCall : IsRead Script.readSysCall

/-- From one place to the next a read leads, whether it fails or not, be it one that ends by itself
or the one of all bytes that are left. -/
inductive Moves : Cursor → Cursor → Prop
  | read {α : Type} {d : Decoder α} (h : IsRead d) (c : Cursor) : Moves c (d.after c)
  | toEnd (c : Cursor) : Moves c (Decoder.after Decoder.toEnd c)

/-- Whatever is sent is read by a local decoder. -/
theorem DecodesValue.isLocal {α : Type} {d : Decoder α} (h : DecodesValue d) : Local d := by
  cases h with
  | hash160 => exact Ledger.local_digest
  | hash256 => exact Ledger.local_digest
  | amount => exact Ledger.local_amount
  | attr => exact Ledger.local_attribute
  | input => exact Ledger.local_input
  | output => exact Ledger.local_output
  | witness => exact Ledger.local_witness
  | cosigner => exact Ledger.local_cosigner
  | transaction => exact Ledger.local_transaction
  | invocation => exact Ledger.local_invocation

/-- Every read that ends by itself is local. -/
theorem IsRead.isLocal {α : Type} {d : Decoder α} (h : IsRead d) : Local d := by
  cases h with
  | byte => exact Wire.local_byte
  | peek => exact Wire.local_peek
  | take n => exact Wire.local_take n
  | number width => exact Wire.local_number width
  | count max => exact Wire.local_read max
  | counted max => exact Wire.local_readCounted max
  | text max => exact Wire.local_readText max
  | value h => exact h.isLocal
  | list h max => exact Wire.local_readList h.isLocal max
  | pushedInteger => exact Script.local_readInteger
  | pushedData => exact Script.local_readData
  | pushedText => exact Script.local_readText
  | sysCall => exact Script.local_readSysCall

/-- A read goes forward over bytes that are there. -/
theorem Moves.precedes {c c' : Cursor} (h : Moves c c') : c.Precedes c' := by
  cases h with
  | read h => exact h.isLocal.precedes_after c
  | toEnd => exact ⟨c.rest, (List.append_nil _).symm, rfl⟩

/-- So do reads one after another. -/
theorem precedes_of_moves {c c' : Cursor} (h : Relation.ReflTransGen Moves c c') :
    c.Precedes c' := by
  induction h with
  | refl => exact .refl c
  | tail _ hmove ih => exact ih.trans hmove.precedes

/-- A read takes its bytes from the front of what is left, and knows nothing of the bytes behind
them: more bytes at the end of the input change neither what is read, nor where it ends, nor an
error, unless the error is that the input has ended. However many reads there are, and whichever of
them fail, each leads from a place in the input to a place in it, never back. What is left there is
what is behind it, so that bytes which are taken are a part of the input, and bytes which are
missing are those that would end behind it. -/
theorem reads_stay_within :
    (∀ (α : Type) (d : Decoder α), IsRead d → Local d) ∧
    ∀ (input : Bytes) (c c' : Cursor), Relation.ReflTransGen Moves (.start input) c →
      Relation.ReflTransGen Moves c c' →
        c.offset ≤ c'.offset ∧ c'.offset ≤ input.length ∧ c'.rest = input.drop c'.offset ∧
        ∀ n, Decoder.take n c' =
          if c'.offset + n ≤ input.length then
            .ok ((input.drop c'.offset).take n) ⟨c'.offset + n, input.drop (c'.offset + n)⟩
          else .error (.endOfInput c'.offset (c'.offset + n - input.length)) c' := by
  refine ⟨fun _ _ h => h.isLocal, fun input c c' hfirst hsecond => ?_⟩
  have hprecedes := precedes_of_moves hsecond
  obtain ⟨hplace, hrest⟩ := ((precedes_of_moves hfirst).trans hprecedes).within
  exact ⟨hprecedes.offset_le, hplace, hrest, Wire.take_of_within hplace hrest⟩

/-- An attribute with a usage that does not exist, a count above its limit, and what is left then of
the four bytes. -/
theorem reads_stay_within_sample :
    (∀ more, Wire.Count.read 300 ⟨0, [0xfd, 0x2c, 0x01] ++ more⟩ = .ok 300 ⟨3, [] ++ more⟩) ∧
    (∀ more, (Form.decode : Decoder Ledger.Attribute) ⟨0, [0x01, 0x05] ++ more⟩ =
      .error (.malformed 0 (.unknownUsage 0x01)) ⟨1, [0x05] ++ more⟩) ∧
    Relation.ReflTransGen Moves (.start [0x01, 0x05, 0xaa, 0xbb]) ⟨1, [0x05, 0xaa, 0xbb]⟩ ∧
    Relation.ReflTransGen Moves ⟨1, [0x05, 0xaa, 0xbb]⟩ ⟨2, [0xaa, 0xbb]⟩ ∧
    Decoder.take 2 ⟨2, [0xaa, 0xbb]⟩ = .ok [0xaa, 0xbb] ⟨4, []⟩ ∧
    Decoder.take 5 ⟨2, [0xaa, 0xbb]⟩ = .error (.endOfInput 2 3) ⟨2, [0xaa, 0xbb]⟩ := by
  obtain ⟨hlocal, hplaces⟩ := reads_stay_within
  have hread : Wire.Count.read 300 ⟨0, [0xfd, 0x2c, 0x01]⟩ = .ok 300 ⟨3, []⟩ := rfl
  have hrefused : (Form.decode : Decoder Ledger.Attribute) ⟨0, [0x01, 0x05]⟩ =
    .error (.malformed 0 (.unknownUsage 0x01)) ⟨1, [0x05]⟩ := rfl
  have hfirst : Relation.ReflTransGen Moves (.start [0x01, 0x05, 0xaa, 0xbb])
      ⟨1, [0x05, 0xaa, 0xbb]⟩ := .single (.read (.value .attr) _)
  have hsecond : Relation.ReflTransGen Moves ⟨1, [0x05, 0xaa, 0xbb]⟩ ⟨2, [0xaa, 0xbb]⟩ :=
    .single (.read (.count 3) _)
  obtain ⟨-, -, -, htake⟩ := hplaces _ _ _ hfirst hsecond
  refine ⟨((hlocal _ _ (.count 300)).read hread).2, ?_, hfirst, hsecond, htake 2, htake 5⟩
  exact ((hlocal _ _ (.value .attr)).refused hrefused).2 nofun

end LedgerClient
