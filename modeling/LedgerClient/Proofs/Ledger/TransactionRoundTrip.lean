import LedgerClient.Proofs.Ledger.Payload
import LedgerClient.Proofs.Ledger.Witnessing

/-!
# General transactions on the wire

A general transaction is sent as its signed part with its witnesses after it. The signed part says
its version and its attributes, and nothing else: transactions that were built have the same signed
part exactly if they agree in these. The builder takes no more attributes than the decoder does
(`Run.length_attributes`), so that only the witnesses can keep the bytes of a built transaction from
being read; what is read back lacks all that is not sent (`Transaction.readBack`).
-/

namespace LedgerClient.Ledger

open Wire (Decides TakesAtMost)
open scoped Power

namespace Transaction

/-! ## What was built -/

/-- Attributes are added at the end, if there is room for all of them, and the rest is left as it
is. -/
theorem withAttributes_eq_ok_iff {t t' : Transaction} {more : List Attribute} :
    t.withAttributes more = .ok t' ↔
      t.attributes.length + more.length ≤ Limits.maxAttributes ∧
        { t with attributes := t.attributes ++ more } = t' := by
  rw [withAttributes, Except.bind_eq_ok_iff]
  constructor
  · rintro ⟨attributes, h, ⟨⟩⟩
    obtain ⟨hlength, rfl⟩ := addAttributes_eq_ok_iff.1 h
    exact ⟨hlength, rfl⟩
  · rintro ⟨hlength, rfl⟩
    exact ⟨_, addAttributes_eq_ok_iff.2 ⟨hlength, rfl⟩, rfl⟩

/-- Witnesses are put into their places, if they can be, and the rest is left as it is. -/
theorem addWitnesses_eq_ok_iff {t t' : Transaction} {batch : List Witness} :
    t.addWitnesses batch = .ok t' ↔
      ∃ witnesses, Witness.insert t.witnesses batch = .ok witnesses ∧
        { t with witnesses := witnesses } = t' := by
  rw [addWitnesses, Except.bind_eq_ok_iff]
  exact exists_congr fun _ => and_congr_right fun _ => ⟨Except.ok.inj, congrArg _⟩

/-- A step of building adds attributes within the limit, or none. -/
theorem Builds.length_attributes {t t' : Transaction} (h : Builds t t')
    (hlength : t.attributes.length ≤ Limits.maxAttributes) :
    t'.attributes.length ≤ Limits.maxAttributes := by
  cases h with
  | attributes hmore =>
    obtain ⟨hmore, rfl⟩ := withAttributes_eq_ok_iff.1 hmore
    rwa [List.length_append]
  | _ => exact hlength

/-- A call that adds witnesses changes nothing else, whether or not it succeeds. -/
theorem eq_of_addInPlace {t t' : Transaction} {batch : List Witness} {outcome : Except Error Unit}
    (h : (addInPlace batch).run.run t = (outcome, t')) :
    { t with witnesses := t'.witnesses } = t' := by
  rw [run_addInPlace] at h
  split at h
  · next hadd =>
    obtain ⟨-, rfl⟩ := Prod.mk.inj h
    obtain ⟨_, -, rfl⟩ := addWitnesses_eq_ok_iff.1 hadd
    rfl
  · obtain ⟨-, rfl⟩ := Prod.mk.inj h
    rfl

end Transaction

/-- No run leads to more attributes than a transaction can hold. -/
theorem Run.length_attributes {start t : Transaction} {batches : List (List Witness)}
    (h : Run start batches t) (hstart : start.attributes.length ≤ Limits.maxAttributes) :
    t.attributes.length ≤ Limits.maxAttributes := by
  induction h with
  | start => exact hstart
  | builds _ hbuilds ih => exact hbuilds.length_attributes ih
  | added _ hcall ih =>
    rw [← Transaction.eq_of_addInPlace hcall]
    exact ih
  | refused _ hcall ih =>
    rw [← Transaction.eq_of_addInPlace hcall]
    exact ih

namespace Transaction

/-! ## What the signed part says -/

/-- The signed part depends on nothing but the version and the attributes. -/
theorem signedPart_eq_of {t u : Transaction} (hversion : t.version = u.version)
    (hattributes : t.attributes = u.attributes) : t.signedPart = u.signedPart := by
  rw [signedPart, signedPart, hversion, hattributes]

/-- The signed part says the version and the attributes. -/
theorem signedPart_eq_iff_of_length {t u : Transaction}
    (ht : t.attributes.length < 2 ^ (64 : Nat)) (hu : u.attributes.length < 2 ^ (64 : Nat)) :
    t.signedPart = u.signedPart ↔ t.version = u.version ∧ t.attributes = u.attributes := by
  constructor
  · intro heq
    rw [signedPart, signedPart, List.cons.injEq] at heq
    obtain ⟨hversion, heq⟩ := heq
    exact ⟨hversion, (Wire.delimits_list decides_attribute).injective ht hu heq⟩
  · rintro ⟨hversion, hattributes⟩
    exact signedPart_eq_of hversion hattributes

/-! ## What is read back -/

/-- The witnesses of a transaction keep within the limits for reading. -/
structure Readable (t : Transaction) : Prop where
  length_witnesses : t.witnesses.length ≤ Limits.maxTransactionItems
  length_scripts : ∀ w ∈ t.witnesses, w.invocation.length ≤ Limits.maxScriptLength ∧
    w.verification.length ≤ Limits.maxScriptLength

/-- What the bytes of a transaction say: the version, the attributes, and the scripts of the
witnesses. -/
def readBack (t : Transaction) : Transaction :=
  { blank t.version with
    attributes := t.attributes
    witnesses := t.witnesses.map fun w => Witness.ofScripts w.invocation w.verification }

/-- Every count after the attributes fits eight bytes. -/
structure Countable (t : Transaction) : Prop where
  witnesses : t.witnesses.length < 2 ^ (64 : Nat)
  scripts : ∀ w ∈ t.witnesses, w.invocation.length < 2 ^ (64 : Nat) ∧
    w.verification.length < 2 ^ (64 : Nat)

/-- Within the limits for reading all counts fit eight bytes. -/
theorem Readable.countable {t : Transaction} (h : t.Readable) : t.Countable := by
  have hscript : Limits.maxScriptLength < 2 ^ (64 : Nat) := by decide
  have hitems : Limits.maxTransactionItems < 2 ^ (64 : Nat) := by decide
  refine ⟨h.length_witnesses.trans_lt hitems, fun w hw => ?_⟩
  obtain ⟨hinvocation, hverification⟩ := h.length_scripts w hw
  exact ⟨hinvocation.trans_lt hscript, hverification.trans_lt hscript⟩

/-- The counts in fewer than 2⁶⁴ bytes fit eight bytes. -/
theorem countable_of_length {t : Transaction} (h : t.encode.length < 2 ^ (64 : Nat)) :
    t.Countable := by
  have hlength : (t.witnesses.flatMap Witness.encode).length < 2 ^ (64 : Nat) := by
    rw [encode, Wire.Counted.writeList, List.length_append, List.length_append] at h
    omega
  refine ⟨(length_le_of_ne_nil witness_encode_ne_nil _).trans_lt hlength, fun w hw => ?_⟩
  have hw := length_le_length_flatMap (f := Witness.encode) hw
  rw [Witness.encode, List.length_append, Wire.Counted.length_write, Wire.Counted.length_write,
    Wire.Counted.size, Wire.Counted.size] at hw
  omega

end Transaction

/-- The bytes of a transaction with few attributes are read back within the limits, and nowhere
else. -/
theorem decides_transaction {t : Transaction} (hcount : t.Countable)
    (hattributes : t.attributes.length ≤ Limits.maxAttributes) :
    Decides Transaction.decode t.encode t.Readable (· = t.readBack) := by
  have hattributes_count : t.attributes.length < 2 ^ (64 : Nat) :=
    hattributes.trans_lt (by decide)
  refine Decides.congr (P := True ∧
    t.attributes.length ≤ Limits.maxAttributes ∧
    t.witnesses.length ≤ Limits.maxTransactionItems ∧ ∀ w ∈ t.witnesses,
      w.invocation.length ≤ Limits.maxScriptLength ∧
        w.verification.length ≤ Limits.maxScriptLength) ?_ ?_ fun _ => id
  · show Decides Transaction.decode ([t.version] ++
      (Wire.Counted.writeList Attribute.encode t.attributes ++
        Wire.Counted.writeList Witness.encode t.witnesses)) _ _
    rw [Transaction.decode]
    refine (Wire.decides_byte t.version).bind fun version hversion => ?_
    refine (Wire.decides_list Limits.maxAttributes hattributes_count fun a _ =>
      decides_attribute a).bind fun attributes hattributes => ?_
    refine (Wire.decides_readList Limits.maxTransactionItems hcount.witnesses fun w hw =>
      decides_witness (hcount.scripts w hw).1 (hcount.scripts w hw).2).map
        fun witnesses hwitnesses => ?_
    rw [hversion, hattributes, hwitnesses]
    rfl
  · constructor
    · rintro ⟨-, -, hwitnesses, hscripts⟩
      exact ⟨hwitnesses, hscripts⟩
    · intro h
      exact ⟨trivial, hattributes, h.length_witnesses, h.length_scripts⟩

/-- A transaction that can be read is shorter than 2⁶⁴ bytes. -/
theorem takesAtMost_transaction : TakesAtMost Transaction.decode (2 ^ (64 : Nat) - 1) :=
  TakesAtMost.mono
    (Wire.takesAtMost_byte.bind fun _ =>
      (Wire.takesAtMost_readList takesAtMost_attribute Limits.maxAttributes).bind fun _ =>
        (Wire.takesAtMost_readList takesAtMost_witness Limits.maxTransactionItems).map)
    (by decide)

namespace Transaction

/-- What is read from the bytes of a transaction with few attributes. -/
theorem run_decode_eq_ok_iff_readable {t : Transaction} (t' : Transaction)
    (hattributes : t.attributes.length ≤ Limits.maxAttributes) (subject : String) :
    (Wire.Form.decode : Wire.Decoder Transaction).run subject t.encode = .ok t' ↔
      t.Readable ∧ t.readBack = t' := by
  by_cases hcount : t.Countable
  · exact (decides_transaction hcount hattributes).run_eq_ok_iff subject
  · -- A longer list than eight bytes can count makes the input too long to be read at all.
    refine iff_of_false (fun hrun => hcount ?_) fun h => hcount h.1.countable
    have hlength := takesAtMost_transaction.length_le hrun
    exact countable_of_length (by omega)

/-- How a transaction that was built stands on the wire. -/
structure Sent (t : Transaction) (subject : String) : Prop where
  /-- The bytes are those of the signed part, of the number of witnesses, and of each witness. -/
  bytes : Wire.Form.encode t = .ok (t.signedPart ++
    (Wire.Count.write t.witnesses.length ++ t.witnesses.flatMap Witness.encode))
  /-- A call that adds witnesses leaves the signed part and the name as they are. -/
  signed (batch : List Witness) {outcome : Except Error Unit} {t' : Transaction} :
    (addInPlace batch).run.run t = (outcome, t') → t'.signedPart = t.signedPart ∧ t'.id = t.id
  /-- The bytes can be read exactly if the witnesses are few and their scripts are short. -/
  readable : (∃ bs t', Wire.Form.encode t = .ok bs ∧
    (Wire.Form.decode : Wire.Decoder Transaction).run subject bs = .ok t') ↔ t.Readable
  /-- What is read is what is sent. -/
  read {bs : Bytes} {t' : Transaction} : Wire.Form.encode t = .ok bs →
    (Wire.Form.decode : Wire.Decoder Transaction).run subject bs = .ok t' → t' = t.readBack
  /-- The signed part is that of no transaction with another version or other attributes. -/
  unique {batches : List (List Witness)} {u : Transaction} : Run Transaction.new batches u →
    (t.signedPart = u.signedPart ↔ t.version = u.version ∧ t.attributes = u.attributes)

/-- A transaction that was built and given witnesses is sent as its signed part and its witnesses.
The signed part says its version and its attributes; the bytes are read back if the witnesses are
within the limits. -/
theorem built_is_sent {t : Transaction} {batches : List (List Witness)}
    (h : Run Transaction.new batches t) (subject : String) : t.Sent subject where
  bytes := rfl
  signed batch outcome t' hcall := by
    have hsame : t'.signedPart = t.signedPart := by
      rw [← eq_of_addInPlace hcall]
      rfl
    refine ⟨hsame, ?_⟩
    rw [id, id, hsame]
  readable := by
    have hlength := h.length_attributes (Nat.zero_le _)
    constructor
    · rintro ⟨_, t', ⟨⟩, hrun⟩
      exact ((run_decode_eq_ok_iff_readable t' hlength subject).1 hrun).1
    · intro hread
      exact ⟨_, _, rfl, (run_decode_eq_ok_iff_readable _ hlength subject).2 ⟨hread, rfl⟩⟩
  read := by
    rintro _ t' ⟨⟩ hrun
    have hlength := h.length_attributes (Nat.zero_le _)
    exact ((run_decode_eq_ok_iff_readable t' hlength subject).1 hrun).2.symm
  unique hu := by
    have hcount : Limits.maxAttributes < 2 ^ (64 : Nat) := by decide
    have ht := (h.length_attributes (Nat.zero_le _)).trans_lt hcount
    exact signedPart_eq_iff_of_length ht ((hu.length_attributes (Nat.zero_le _)).trans_lt hcount)

/-- A transaction with a script and an attribute. -/
def sampleDraft : Transaction :=
  { new with script := [0x61], attributes := [.script .zero] }

/-- Given a witness, such a transaction can be read, but its script is not sent. -/
theorem built_is_sent_sample : ∃ bs t t', Wire.Form.encode (t : Transaction) = .ok bs ∧
    (Wire.Form.decode : Wire.Decoder Transaction).run "transaction" bs = .ok t' ∧
    t'.attributes = t.attributes ∧ t'.witnesses = [.ofScripts [0x40] [0x51]] ∧
    t.script = [0x61] ∧ t'.script = [] := by
  have hscript : Run new [] ({ new with script := [0x61] } : Transaction) :=
    Run.start.builds (Builds.script _ [0x61])
  have hrun : Run new [] sampleDraft :=
    hscript.builds (Builds.attributes (withAttributes_eq_ok_iff.2 ⟨by decide, rfl⟩))
  have hnamed : ∀ w ∈ [Witness.ofScripts [0x40] [0x51]], w.scriptHash ≠ none := by
    intro w hw
    rw [List.mem_singleton.1 hw]
    exact Option.some_ne_none _
  obtain ⟨t, hadd, hsort⟩ := addWitnesses_eq_ok hnamed sampleDraft
  obtain ⟨ws, -, rfl⟩ := addWitnesses_eq_ok_iff.1 hadd
  obtain rfl : ws = [.ofScripts [0x40] [0x51]] := hsort.trans (List.mergeSort_singleton _)
  have hsent := built_is_sent (hrun.add hadd) "transaction"
  obtain ⟨bs, t', hbytes, hread⟩ := hsent.readable.2 ⟨by decide, by decide⟩
  obtain rfl := hsent.read hbytes hread
  exact ⟨bs, _, _, hbytes, hread, rfl, rfl, rfl, rfl⟩

end Transaction

end LedgerClient.Ledger
