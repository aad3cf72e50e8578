import LedgerClient.Ledger.WireForm
import LedgerClient.Proofs.Amount.Count
import LedgerClient.Proofs.Ledger.Draft
import LedgerClient.Proofs.Wire.Extent

/-!
# Invocations on the wire

What is made of the bytes of an invocation when they are read. Each part is decided by its own
bytes: hashes, inputs, outputs and attributes are always read back, since their types hold nothing
else than what can be read, and witnesses are if their scripts are short enough
(`decides_invocation`). That holds as long as eight bytes hold every count. Beyond that the bytes
say something else, but there are more of them than can be read (`takesAtMost_invocation`), so that
what is built is read back within the limits for reading, and otherwise not at all
(`built_round_trip`).
-/

namespace LedgerClient

open Wire (Decides TakesAtMost)

/-! ## Amounts -/

/-- The two's complement of an amount gives the amount back. -/
theorem Fixed8.ofWord_encode (a : Fixed8) : ofWord (a.raw % 2 ^ 64).toNat = a := by
  have hmin := a.min_le
  have hmax := a.lt_max
  have hword : ((a.raw % 2 ^ 64).toNat : Int).bmod (2 ^ 64) = a.raw := by
    rw [Int.toNat_of_nonneg (Int.emod_nonneg _ (by decide))]
    refine (Int.emod_bmod a.raw (2 ^ 64)).trans (Int.bmod_eq_of_le_mul_two ?_ ?_) <;> omega
  rw [ofWord, hword, ofRaw?_eq_some_iff.2 rfl, Option.getD_some]

/-- A word that is sent for an amount stands for it. -/
theorem decides_fixed8 (a : Fixed8) :
    Decides (Wire.Decoder.number Fixed8.size) a.encode True fun word => Fixed8.ofWord word = a := by
  have hlt : (a.raw % 2 ^ 64).toNat < 256 ^ Fixed8.size := by
    have := Int.emod_lt_of_pos a.raw (b := 2 ^ 64) (by decide)
    simp only [Fixed8.size]
    omega
  refine (Wire.decides_number hlt).congr Iff.rfl ?_
  rintro _ rfl
  exact a.ofWord_encode

namespace Ledger

/-- Hashes are read back. -/
theorem decides_digest {size : Nat} (h : Digest size) :
    Decides Digest.decode h.encode True (· = h) :=
  Wire.decides_sized (α := Digest size) (Q := (· = h)) h.length_bytes (fun bs hbs => ⟨bs, hbs⟩) rfl

/-- Inputs are read back. -/
theorem decides_input (i : Input) : Decides Input.decode i.encode True (· = i) := by
  have hindex : i.index.toNat < 256 ^ 2 := i.index.toNat_lt
  have hbind := (decides_digest i.transaction).bind (S := (· = i))
    (f := fun transaction => do
      return (⟨transaction, UInt16.ofNat (← Wire.Decoder.number 2)⟩ : Input))
    fun transaction htransaction => (Wire.decides_number hindex).map fun index hi => by
      rw [htransaction, hi, UInt16.ofNat_toNat]
  rw [true_and] at hbind
  exact hbind

/-- Outputs are read back: the amount of an output is positive, as reading asks. -/
theorem decides_output (o : Output) : Decides Output.decode o.encode True (· = o) := by
  rw [Output.encode, List.append_assoc]
  refine Decides.congr (P := True ∧ True ∧ True) ?_ (by decide) fun _ => id
  rw [Output.decode]
  refine (decides_digest o.asset).bind fun asset hasset =>
    (decides_fixed8 o.amount).bind fun word hword => ?_
  have hpos : 0 < (Fixed8.ofWord word).raw := hword ▸ o.amount_pos
  rw [dif_pos hpos]
  refine (decides_digest o.recipient).map fun recipient hrecipient => ?_
  subst hasset hrecipient
  show (⟨o.asset, Fixed8.ofWord word, o.recipient, hpos⟩ : Output) =
    ⟨o.asset, o.amount, o.recipient, o.amount_pos⟩
  simp only [hword]

/-! ## Attributes -/

/-- The byte of a usage stands for it, if its slot exists. -/
theorem Usage.ofTag?_tag {u : Usage} (h : u.slotExists = true) : ofTag? u.tag = some u := by
  have hslot : ∀ slot : UInt8, slot ≤ 15 → ∃ k : Fin 16, slot = UInt8.ofNat k := fun slot hslot =>
    ⟨⟨slot.toNat, Nat.lt_succ_of_le (UInt8.le_iff_toNat_le.1 hslot)⟩, (UInt8.ofNat_toNat).symm⟩
  cases u with
  | hash slot =>
    rw [slotExists, Bool.and_eq_true, decide_eq_true_eq, decide_eq_true_eq] at h
    obtain ⟨k, rfl⟩ := hslot slot h.2
    revert k
    decide
  | remark slot =>
    rw [slotExists, decide_eq_true_eq] at h
    obtain ⟨k, rfl⟩ := hslot slot h
    revert k
    decide
  | _ => rfl

/-- The data of an attribute is read back as its usage asks. -/
theorem decides_data (a : Attribute) :
    Decides (Attribute.decodeData a.usage) a.encode.tail True (·.1 = a.data) := by
  have hadmits := a.admits_length
  rw [Usage.admits] at hadmits
  rw [Attribute.decodeData, Attribute.encode, List.tail_cons]
  split
  · next length hlayout =>
    simp only [hlayout, beq_iff_eq] at hadmits ⊢
    exact (Wire.decides_takeSized hadmits).map fun _ => id
  · next hlayout =>
    simp only [hlayout, decide_eq_true_eq] at hadmits ⊢
    have hlength : a.data.length = (UInt8.ofNat a.data.length).toNat := by
      rw [UInt8.toNat_ofNat']
      omega
    refine ((Wire.decides_byte _).bind (t := a.data) (R := True) ?_).congr and_self_iff fun _ => id
    rintro _ rfl
    exact (Wire.decides_takeSized hlength).map fun _ => id
  · next hlayout =>
    simp only [hlayout, decide_eq_true_eq] at hadmits ⊢
    have hlt : a.data.length < 2 ^ 64 := Nat.lt_of_le_of_lt hadmits (by decide)
    have hread := (Wire.decides_readCountedBounded Usage.maxCounted hlt).congr
      (iff_of_true hadmits trivial) fun _ => id
    exact hread.map fun _ => id

/-- Attributes are read back. -/
theorem decides_attribute (a : Attribute) : Decides Attribute.decode a.encode True (· = a) := by
  have hparts : Decides Attribute.decode ([] ++ ([a.usage.tag] ++ a.encode.tail))
      (True ∧ True ∧ True) (· = a) := by
    rw [Attribute.decode]
    refine Wire.decides_offset.bind fun offset _ => (Wire.decides_byte a.usage.tag).bind ?_
    rintro _ rfl
    have htag := Usage.ofTag?_tag a.slotExists_usage
    split
    · next heq => cases heq.symm.trans htag
    · next usage heq =>
      obtain rfl : usage = a.usage := Option.some.inj (heq.symm.trans htag)
      refine (decides_data a).map (S := (· = a))
        (f := fun x => ⟨a.usage, x.1, a.slotExists_usage, x.2⟩) ?_
      rintro ⟨_, _⟩ rfl
      rfl
  rw [true_and, true_and] at hparts
  exact hparts

/-! ## Witnesses -/

/-- A witness is read back if its scripts are short enough, with the account that its verification
names. -/
theorem decides_witness {w : Witness} (hinvocation : w.invocation.length < 2 ^ 64)
    (hverification : w.verification.length < 2 ^ 64) :
    Decides Witness.decode w.encode
      (w.invocation.length ≤ Limits.maxScriptLength ∧
        w.verification.length ≤ Limits.maxScriptLength)
      (· = Witness.ofScripts w.invocation w.verification) :=
  (Wire.decides_readCounted Limits.maxScriptLength hinvocation).bind fun invocation hi =>
    (Wire.decides_readCounted Limits.maxScriptLength hverification).map fun verification hv => by
      rw [hi, hv]

/-! ## Invocations -/

namespace Invocation

/-- The bytes of an invocation keep within the limits for reading. -/
structure Readable (t : Invocation) : Prop where
  length_script : t.script.length ≤ Limits.maxScriptLength
  length_inputs : t.inputs.length ≤ Limits.maxTransactionItems
  length_outputs : t.outputs.length ≤ Limits.maxTransactionItems
  length_witnesses : t.witnesses.length ≤ Limits.maxTransactionItems
  length_scripts : ∀ w ∈ t.witnesses, w.invocation.length ≤ Limits.maxScriptLength ∧
    w.verification.length ≤ Limits.maxScriptLength

/-- What the bytes of an invocation say: without what is paid if the version does not carry it, and
of the accounts that agreed only what the verification scripts say. -/
def readBack (t : Invocation) : Invocation :=
  { t with
    gas := if t.version = 0 then .zero else t.gas
    witnesses := t.witnesses.map fun w => Witness.ofScripts w.invocation w.verification }

/-- Every count in the bytes of an invocation fits eight bytes. -/
structure Countable (t : Invocation) : Prop where
  script : t.script.length < 2 ^ 64
  inputs : t.inputs.length < 2 ^ 64
  outputs : t.outputs.length < 2 ^ 64
  witnesses : t.witnesses.length < 2 ^ 64
  scripts : ∀ w ∈ t.witnesses, w.invocation.length < 2 ^ 64 ∧ w.verification.length < 2 ^ 64

end Invocation

/-- All versions but the first carry what is paid. -/
theorem carriesGas_iff {version : UInt8} : Invocation.carriesGas version = true ↔ version ≠ 0 := by
  rw [Invocation.carriesGas, decide_eq_true_eq, UInt8.le_iff_toNat_le, Ne, ← UInt8.toNat_inj]
  exact Nat.one_le_iff_ne_zero

/-- What is paid is read if the version carries it, and is nothing otherwise. -/
theorem decides_gas {α : Type} (version : UInt8) (gas : Fixed8) {next : Fixed8 → Wire.Decoder α}
    {bs : Bytes} {P : Prop} {Q : α → Prop}
    (h : Decides (next (if version = 0 then .zero else gas)) bs P Q) :
    Decides (if Invocation.carriesGas version then
        Fixed8.ofWord <$> Wire.Decoder.number Fixed8.size >>= next else pure Fixed8.zero >>= next)
      ((if Invocation.carriesGas version then gas.encode else []) ++ bs) P Q := by
  have hword : Decides (Fixed8.ofWord <$> Wire.Decoder.number Fixed8.size) gas.encode True
      (· = gas) := by
    rw [← bind_pure_comp]
    exact (decides_fixed8 gas).map fun _ => id
  have hgas : (if version = 0 then .zero else gas) =
      if Invocation.carriesGas version = true then gas else .zero := by
    simp only [carriesGas_iff, ne_eq, ite_not]
  exact .bind_ite (fun _ => hword) (hgas ▸ h)

/-- The bytes of an invocation, part after part. -/
theorem Invocation.encode_eq (t : Invocation) :
    t.encode = [] ++ ([Limits.invocationTag] ++ ([t.version] ++ (Wire.Counted.write t.script ++
      ((if carriesGas t.version then t.gas.encode else []) ++
        (Wire.Counted.writeList Attribute.encode t.attributes ++
          (Wire.Counted.writeList Input.encode t.inputs ++
            (Wire.Counted.writeList Output.encode t.outputs ++
              Wire.Counted.writeList Witness.encode t.witnesses))))))) := by
  rw [encode, signedPart]
  simp only [List.cons_append, List.append_assoc, List.nil_append]

/-- The bytes of an invocation with few attributes are read back within the limits, and nowhere
else. -/
theorem decides_invocation {t : Invocation} (hcount : t.Countable)
    (hattributes : t.attributes.length ≤ Limits.maxAttributes) :
    Decides Invocation.decode t.encode t.Readable (· = t.readBack) := by
  have hwitness := fun w hw => decides_witness (hcount.scripts w hw).1 (hcount.scripts w hw).2
  have hattributes_count : t.attributes.length < 2 ^ 64 :=
    Nat.lt_of_le_of_lt hattributes (by decide)
  rw [t.encode_eq]
  -- One condition for each part, in the order of the bytes; those on the attributes hold.
  refine Decides.congr (P := True ∧ True ∧ True ∧ t.script.length ≤ Limits.maxScriptLength ∧
    t.attributes.length ≤ Limits.maxAttributes ∧
    t.inputs.length ≤ Limits.maxTransactionItems ∧
    t.outputs.length ≤ Limits.maxTransactionItems ∧
    t.witnesses.length ≤ Limits.maxTransactionItems ∧ ∀ w ∈ t.witnesses,
      w.invocation.length ≤ Limits.maxScriptLength ∧
        w.verification.length ≤ Limits.maxScriptLength) ?_ ?_ fun _ => id
  · rw [Invocation.decode]
    refine Wire.decides_offset.bind fun _ _ => (Wire.decides_byte _).bind ?_
    rintro _ rfl
    rw [if_neg (not_not.2 rfl)]
    refine (Wire.decides_byte _).bind ?_
    rintro _ rfl
    refine (Wire.decides_readCounted Limits.maxScriptLength hcount.script).bind
      fun script hscript => ?_
    refine decides_gas t.version t.gas ?_
    refine (Wire.decides_list Limits.maxAttributes hattributes_count
      fun a _ => decides_attribute a).bind fun attributes hattributes => ?_
    refine (Wire.decides_list Limits.maxTransactionItems hcount.inputs
      fun i _ => decides_input i).bind fun inputs hinputs => ?_
    refine (Wire.decides_list Limits.maxTransactionItems hcount.outputs
      fun o _ => decides_output o).bind fun outputs houtputs => ?_
    refine (Wire.decides_readList Limits.maxTransactionItems hcount.witnesses hwitness).map
      fun witnesses hwitnesses => ?_
    rw [hscript, hattributes, hinputs, houtputs, hwitnesses]
    rfl
  · constructor
    · rintro ⟨-, -, -, hscript, -, hinputs, houtputs, hwitnesses, hscripts⟩
      exact ⟨hscript, hinputs, houtputs, hwitnesses, hscripts⟩
    · intro h
      exact ⟨trivial, trivial, trivial, h.length_script, hattributes, h.length_inputs,
        h.length_outputs, h.length_witnesses, h.length_scripts⟩

/-! ## How long what can be read is -/

/-- A hash takes as many bytes as it has. -/
theorem takesAtMost_digest (size : Nat) :
    TakesAtMost (Digest.decode : Wire.Decoder (Digest size)) size :=
  (Wire.takesAtMost_takeSized size).bind (l := 0) fun ⟨_, _⟩ => .pure _

/-- An input takes a hash and a number of two bytes. -/
theorem takesAtMost_input : TakesAtMost Input.decode 34 :=
  (takesAtMost_digest Limits.hashSize).bind fun _ => (Wire.takesAtMost_number 2).map

/-- An output takes two hashes and an amount. -/
theorem takesAtMost_output : TakesAtMost Output.decode 60 := by
  refine (takesAtMost_digest Limits.hashSize).bind (l := 28) fun _ =>
    (Wire.takesAtMost_number Fixed8.size).bind (l := 20) fun word => ?_
  show TakesAtMost (if h : 0 < (Fixed8.ofWord word).raw then _ else _) 20
  split
  · exact (takesAtMost_digest Limits.scriptHashSize).map
  · exact .fail fun c => ⟨_, c, rfl⟩

/-- The data of an attribute takes at most a count and the bytes that a counted layout allows. -/
theorem takesAtMost_data (u : Usage) : TakesAtMost (Attribute.decodeData u) 65544 := by
  rw [Attribute.decodeData]
  split
  · next length hlayout =>
    have hlength : length ≤ 65544 := by
      cases u <;> cases hlayout <;> decide
    exact ((Wire.takesAtMost_takeSized length).mono hlength).bind (l := 0) fun ⟨_, _⟩ => .pure _
  · refine Wire.takesAtMost_byte.bind (l := 65543) fun length => ?_
    have hlength : length.toNat ≤ 65543 := Nat.le_trans (Nat.le_of_lt length.toNat_lt) (by decide)
    exact ((Wire.takesAtMost_takeSized length.toNat).mono hlength).bind (l := 0)
      fun ⟨_, _⟩ => .pure _
  · exact (Wire.takesAtMost_readCountedBounded Usage.maxCounted).bind (l := 0) fun ⟨_, _⟩ => .pure _

/-- An attribute takes one byte more. -/
theorem takesAtMost_attribute : TakesAtMost Attribute.decode 65545 := by
  refine Wire.takesAtMost_offset.bind (l := 65545) fun _ =>
    Wire.takesAtMost_byte.bind (l := 65544) fun tag => ?_
  split
  · exact .fail fun c => ⟨_, c, rfl⟩
  · exact (takesAtMost_data _).bind (l := 0) fun ⟨_, _⟩ => .pure _

/-- A witness takes at most two scripts and their lengths. -/
theorem takesAtMost_witness : TakesAtMost Witness.decode 2097170 :=
  (Wire.takesAtMost_readCounted Limits.maxScriptLength).bind fun _ =>
    (Wire.takesAtMost_readCounted Limits.maxScriptLength).map

/-- An invocation that can be read is shorter than 2⁶⁴ bytes. -/
theorem takesAtMost_invocation : TakesAtMost Invocation.decode (2 ^ 64 - 1) := by
  have hgas := (Wire.takesAtMost_number Fixed8.size).map (f := Fixed8.ofWord)
  rw [bind_pure_comp] at hgas
  rw [Invocation.decode]
  -- The lists take less than 2 ^ 38 bytes, most of it for the scripts of witnesses.
  refine TakesAtMost.mono (k := 0 + (1 + (1 + ((9 + Limits.maxScriptLength) + (8 + 2 ^ 38)))))
    (Wire.takesAtMost_offset.bind fun _ => Wire.takesAtMost_byte.bind fun tag => ?_) (by decide)
  split
  · exact .fail fun c => ⟨_, c, rfl⟩
  refine Wire.takesAtMost_byte.bind fun version =>
    (Wire.takesAtMost_readCounted Limits.maxScriptLength).bind fun script => ?_
  refine hgas.bind_ite fun gas => TakesAtMost.mono
    ((Wire.takesAtMost_readList takesAtMost_attribute Limits.maxAttributes).bind fun _ =>
      (Wire.takesAtMost_readList takesAtMost_input Limits.maxTransactionItems).bind fun _ =>
        (Wire.takesAtMost_readList takesAtMost_output Limits.maxTransactionItems).bind fun _ =>
          (Wire.takesAtMost_readList takesAtMost_witness Limits.maxTransactionItems).map)
    (by decide)

/-! ## Reading back what was built -/

/-- What is written for a member of a list is no longer than what is written for the list. -/
theorem length_le_length_flatMap {α : Type} {f : α → Bytes} {x : α} {xs : List α} (h : x ∈ xs) :
    (f x).length ≤ (xs.flatMap f).length := by
  obtain ⟨front, back, rfl⟩ := List.append_of_mem h
  rw [List.flatMap_append, List.flatMap_cons, List.length_append, List.length_append]
  omega

/-- If nothing is written in no bytes, a list has no more members than bytes. -/
theorem length_le_of_ne_nil {α : Type} {f : α → Bytes} (h : ∀ x, f x ≠ []) (xs : List α) :
    xs.length ≤ (xs.flatMap f).length := by
  induction xs with
  | nil => exact Nat.le_refl 0
  | cons x xs ih =>
    have hx := List.length_pos_iff.2 (h x)
    rw [List.length_cons, List.flatMap_cons, List.length_append]
    omega

/-- An input is not written in no bytes. -/
theorem input_encode_ne_nil (i : Input) : i.encode ≠ [] :=
  List.append_ne_nil_of_right_ne_nil _ (List.cons_ne_nil _ _)

/-- Nor is an output. -/
theorem output_encode_ne_nil (o : Output) : o.encode ≠ [] :=
  List.append_ne_nil_of_left_ne_nil
    (List.append_ne_nil_of_right_ne_nil _ (List.cons_ne_nil _ _)) _

/-- Nor is a witness. -/
theorem witness_encode_ne_nil (w : Witness) : w.encode ≠ [] := by
  have hcount : Wire.Count.write w.invocation.length ≠ [] := by
    rw [Wire.Count.write]
    split_ifs <;> exact List.cons_ne_nil _ _
  exact List.append_ne_nil_of_left_ne_nil (List.append_ne_nil_of_left_ne_nil hcount _) _

/-- The counts in fewer than 2⁶⁴ bytes fit eight bytes. -/
theorem Invocation.countable_of_length {t : Invocation} (h : t.encode.length < 2 ^ 64) :
    t.Countable := by
  have hlength := congrArg List.length t.encode_eq
  simp only [List.length_append, Wire.Counted.write, Wire.Counted.writeList] at hlength
  have hinputs := length_le_of_ne_nil input_encode_ne_nil t.inputs
  have houtputs := length_le_of_ne_nil output_encode_ne_nil t.outputs
  have hwitnesses := length_le_of_ne_nil witness_encode_ne_nil t.witnesses
  refine ⟨by omega, by omega, by omega, by omega, fun w hw => ?_⟩
  have hw := length_le_length_flatMap (f := Witness.encode) hw
  rw [Witness.encode, List.length_append, Wire.Counted.length_write, Wire.Counted.length_write,
    Wire.Counted.size, Wire.Counted.size] at hw
  omega

/-- Within the limits for reading all counts fit eight bytes. -/
theorem Invocation.Readable.countable {t : Invocation} (h : t.Readable) : t.Countable := by
  have hscript : Limits.maxScriptLength < 2 ^ 64 := by decide
  have hitems : Limits.maxTransactionItems < 2 ^ 64 := by decide
  exact ⟨h.length_script.trans_lt hscript, h.length_inputs.trans_lt hitems,
    h.length_outputs.trans_lt hitems, h.length_witnesses.trans_lt hitems, fun w hw =>
      ⟨(h.length_scripts w hw).1.trans_lt hscript, (h.length_scripts w hw).2.trans_lt hscript⟩⟩

/-- What is read from the bytes of an invocation with few attributes. -/
theorem run_decode_eq_ok_iff {t : Invocation} (t' : Invocation)
    (hattributes : t.attributes.length ≤ Limits.maxAttributes) (subject : String) :
    (Wire.Form.decode : Wire.Decoder Invocation).run subject t.encode = .ok t' ↔
      t.Readable ∧ t.readBack = t' := by
  by_cases hcount : t.Countable
  · exact (decides_invocation hcount hattributes).run_eq_ok_iff subject
  · -- A longer list than eight bytes can count makes the input too long to be read at all.
    refine iff_of_false (fun hrun => hcount ?_) fun h => hcount h.1.countable
    have hlength := takesAtMost_invocation.length_le hrun
    exact Invocation.countable_of_length (by omega)

/-- An invocation that was built can be sent, and its bytes are read back exactly if its parts are
within the limits for reading. -/
theorem built_round_trip {t : Invocation} (h : t.Built) (subject : String) :
    Wire.Form.encode t = .ok t.encode ∧
    ((∃ t', (Wire.Form.decode : Wire.Decoder Invocation).run subject t.encode = .ok t') ↔
      t.Readable) ∧
    (t.Readable →
      (Wire.Form.decode : Wire.Decoder Invocation).run subject t.encode = .ok t.readBack) := by
  have hback : t.Readable →
      (Wire.Form.decode : Wire.Decoder Invocation).run subject t.encode = .ok t.readBack :=
    fun hread => (run_decode_eq_ok_iff _ h.length_attributes subject).2 ⟨hread, rfl⟩
  refine ⟨rfl, ⟨?_, fun hread => ⟨_, hback hread⟩⟩, hback⟩
  rintro ⟨t', hrun⟩
  exact ((run_decode_eq_ok_iff t' h.length_attributes subject).1 hrun).1

/-- A witness that names an account beside its scripts. -/
def namedWitness (account : UInt8) (verification : Bytes) : Witness :=
  ⟨[0x40], verification, some ⟨List.replicate Limits.scriptHashSize account, List.length_replicate⟩⟩

/-- An invocation with an entry in each list. Its version does not carry what is paid, and the
accounts that it names are not those that the verification scripts say. -/
def sampleBuilt : Invocation where
  version := 0
  script := [0x51]
  gas := .ofWord 5
  attributes := [.script .zero]
  inputs := [⟨.zero, 3⟩]
  outputs := [⟨.zero, .ofWord 7, .zero, by decide⟩]
  witnesses := [namedWitness 1 [0x51], namedWitness 2 []]

/-- It is built step by step, and its witnesses are added to it one after the other. -/
theorem sampleBuilt_built : sampleBuilt.Built := by
  have hattributes : Invocation.withAttributes
      { Invocation.new with version := 0, script := [0x51], gas := .ofWord 5 } [.script .zero] =
        .ok { sampleBuilt with inputs := [], outputs := [], witnesses := [] } := rfl
  have hdraft : Invocation.Draft { sampleBuilt with witnesses := [] } :=
    (((Invocation.Draft.new.version 0).script [0x51]).gas (.ofWord 5)).attributes hattributes
      |>.inputs sampleBuilt.inputs |>.outputs sampleBuilt.outputs
  have hfinished : Invocation.Built { sampleBuilt with witnesses := [] } := .finish hdraft rfl
  have hfirst : Witness.insert [] [namedWitness 1 [0x51]] = .ok [namedWitness 1 [0x51]] :=
    congrArg Except.ok (List.mergeSort_singleton _)
  have hsecond : Witness.insert [namedWitness 1 [0x51]] [namedWitness 2 []] =
      .ok sampleBuilt.witnesses :=
    congrArg Except.ok (List.mergeSort_of_pairwise (by decide))
  exact (hfinished.witnesses (Invocation.addWitnesses_eq_ok_iff.2 ⟨_, hfirst, rfl⟩)).witnesses
    (Invocation.addWitnesses_eq_ok_iff.2 ⟨_, hsecond, rfl⟩)

/-- It is read back without what is paid, and without the accounts that it names. -/
theorem built_round_trip_sample :
    sampleBuilt.Built ∧ sampleBuilt.readBack ≠ sampleBuilt ∧
    (Wire.Form.decode : Wire.Decoder Invocation).run "invocation" sampleBuilt.encode =
      .ok sampleBuilt.readBack ∧
    sampleBuilt.readBack.gas = .zero ∧
    sampleBuilt.readBack.witnesses =
      [Witness.ofScripts [0x40] [0x51], Witness.ofScripts [0x40] []] := by
  have hread : sampleBuilt.Readable :=
    ⟨by decide, by decide, by decide, by decide, by decide⟩
  have hgas : sampleBuilt.readBack.gas ≠ sampleBuilt.gas := by decide
  obtain ⟨-, -, hback⟩ := built_round_trip sampleBuilt_built "invocation"
  exact ⟨sampleBuilt_built, fun heq => hgas (congrArg _ heq), hback hread, rfl, rfl⟩

end Ledger

end LedgerClient
