import LedgerClient.Contract.Deployment
import LedgerClient.Proofs.Result
import LedgerClient.Proofs.Script.Pushable
import LedgerClient.Proofs.Script.Spelling
import Mathlib.Data.List.Forall2

/-!
# All scripts that deploy a contract

A deployment is a row of nine pushes and a call, and each push may have any form
(`Deployment.Spells`). The declaration of the entry point has still more spellings: of the number
for the capabilities only the three lowest bits count, and the kind of the result is told by the
value of a number, not by its bytes (`EntryPoint.Spells`). A script is read as a deployment exactly
if it is one of its spellings (`Deployment.ofBytes_eq_ok_iff`), and the script that is written, if
there is one, is a shortest among them (`Deployment.Spells.length_pushes_le`).
-/

namespace LedgerClient.Contract

open Script (Kind SpellsCall SpellsData SpellsSigned pushInteger rawPush)
open Wire (Decoder DecoderOf Emission Judges Reads)

/-! ## Spellings -/

/-- The pushes of the texts of a description. -/
inductive Description.Spells (d : Description) : Bytes → Prop where
  | mk (pushes : List Bytes)
    (h : List.Forall₂ (fun s push => SpellsData (Bytes.ofText s) push) d.texts pushes) :
    Spells d pushes.flatten

/-- The pushes that declare an entry point: its capabilities in the low bits of a number, the tag of
its result, and the tags of its arguments. -/
inductive EntryPoint.Spells (p : EntryPoint) : Bytes → Prop where
  | mk {flags tag flagsPush tagPush kindsPush : Bytes} (hflags : SpellsSigned flags flagsPush)
    (hcapabilities : Capabilities.ofFlags (flags.headD 0) = p.capabilities)
    (htag : SpellsSigned tag tagPush) (hresult : Bytes.toInt tag = p.result.tag.toNat)
    (hkinds : SpellsData (p.parameters.map Kind.tag) kindsPush) :
    Spells p (flagsPush ++ (tagPush ++ kindsPush))

/-- The scripts that deploy a contract. -/
inductive Deployment.Spells (d : Deployment) : Bytes → Prop where
  | mk {description entryPoint script call : Bytes}
    (hdescription : d.description.Spells description)
    (hentryPoint : d.entryPoint.Spells entryPoint) (hscript : SpellsData d.script script)
    (hcall : SpellsCall createService call) :
    Spells d (description ++ (entryPoint ++ (script ++ call)))

/-! ## Descriptions -/

namespace Description

/-- The texts of a description have room in a push each. -/
def Pushable (d : Description) : Prop :=
  ∀ s ∈ d.texts, (Bytes.ofText s).length ≤ Limits.maxPushLength

/-- The pushes of the shortest form. -/
def pushes (d : Description) : List Bytes := d.texts.map fun s => rawPush (Bytes.ofText s)

/-- What is read as a description are its spellings. -/
theorem reads_decode : Reads decode Spells := by
  have hread := Script.reads_readText.mapError Error.ofWire
  rw [decode]
  refine (hread.bind fun description => hread.bind fun email => hread.bind fun author =>
    hread.bind fun version => hread.map).congr fun d bs => ?_
  constructor
  · rintro ⟨_, p₁, _, h₁, ⟨_, p₂, _, h₂, ⟨_, p₃, _, h₃, ⟨_, p₄, p₅, h₄, ⟨_, h₅, rfl⟩, rfl⟩, rfl⟩,
      rfl⟩, rfl⟩
    have hpushes := Spells.mk (d := ⟨_, _, _, _, _⟩) _
      (.cons h₁ (.cons h₂ (.cons h₃ (.cons h₄ (.cons h₅ .nil)))))
    simpa using hpushes
  · rintro ⟨_, hpushes⟩
    obtain _ | ⟨h₁, _ | ⟨h₂, _ | ⟨h₃, _ | ⟨h₄, _ | ⟨h₅, ⟨⟩⟩⟩⟩⟩⟩ := hpushes
    exact ⟨_, _, _, h₁, ⟨_, _, _, h₂, ⟨_, _, _, h₃, ⟨_, _, _, h₄, ⟨_, h₅, rfl⟩, rfl⟩, rfl⟩, rfl⟩,
      by simp⟩

/-- A description is written if each of its texts has room in a push. -/
theorem emit_failure_eq_none_iff {d : Description} : d.emit.failure = none ↔ d.Pushable := by
  rw [emit, Emission.all_failure_eq_none_iff, List.forall_mem_map]
  exact forall₂_congr fun s _ => Script.pushData_failure_eq_none_iff

/-- It is written in its shortest form. -/
theorem emit_bytes {d : Description} (h : d.Pushable) : d.emit.bytes = d.pushes.flatten := by
  have hnone := Emission.all_failure_eq_none_iff.1 (emit_failure_eq_none_iff.2 h)
  rw [emit, Emission.all_bytes hnone, List.flatMap_def, List.map_map, pushes]
  exact congrArg List.flatten (List.map_congr_left fun s hs => Script.pushData_bytes (h s hs))

/-- The shortest form is a spelling. -/
theorem spells_pushes {d : Description} (h : d.Pushable) : d.Spells d.pushes.flatten := by
  refine .mk _ ?_
  rw [pushes, List.forall₂_map_right_iff, List.forall₂_same]
  exact fun s hs => Script.spellsData_rawPush (h s hs)

/-- Only texts that have room in a push each can be spelled. -/
theorem Spells.pushable {d : Description} {bs : Bytes} (h : d.Spells bs) : d.Pushable := by
  obtain ⟨_, hpushes⟩ := h
  exact ((List.forall₂_and_left _ _).1
    (hpushes.imp fun _ _ hspells => ⟨hspells.length_le, hspells⟩)).1

/-- No other pushes of the texts are shorter. -/
theorem Spells.length_pushes_le {d : Description} {bs : Bytes} (h : d.Spells bs) :
    d.pushes.flatten.length ≤ bs.length := by
  obtain ⟨_, hpushes⟩ := h
  rw [pushes]
  generalize d.texts = texts at hpushes
  induction hpushes with
  | nil => exact Nat.le_refl _
  | cons hspells _ ih =>
    have hhead := hspells.length_rawPush_le
    simp only [List.map_cons, List.flatten_cons, List.length_append] at ih ⊢
    omega

end Description

/-! ## Entry points -/

namespace EntryPoint

/-- The kinds of the arguments have room in one push. -/
def Pushable (p : EntryPoint) : Prop := p.parameters.length ≤ Limits.maxPushLength

/-- The pushes of the shortest form. -/
def pushes (p : EntryPoint) : Bytes :=
  pushInteger p.capabilities.toFlags.toNat ++
    (pushInteger p.result.tag.toNat ++ rawPush (p.parameters.map Kind.tag))

/-- The capabilities are read from the low byte of a number, which may be pushed in any form. -/
theorem reads_decodeCapabilities : Reads decodeCapabilities fun capabilities push =>
    ∃ flags, SpellsSigned flags push ∧ Capabilities.ofFlags (flags.headD 0) = capabilities := by
  refine (Script.reads_readSigned.mapError Error.ofWire).map.congr fun capabilities push => ?_
  simp only [eq_comm]

/-- A tag stands for the kind that has it, if there is one. -/
theorem judges_kindOfTag (tag : UInt8) : Judges (kindOfTag tag) fun kind => kind.tag = tag := by
  rw [kindOfTag]
  split
  · next kind hkind =>
    refine .pure fun kind' => ?_
    constructor
    · rintro rfl
      exact Option.some.inj ((Kind.ofTag?_tag kind').symm.trans hkind)
    · rintro rfl
      exact Kind.tag_of_ofTag? hkind
  · next hnone =>
    refine .fail (fun c => ⟨_, c, rfl⟩) ?_
    rintro kind rfl
    cases (Kind.ofTag?_tag kind).symm.trans hnone

/-- The kind of the result is read from a number with the value of its tag. -/
theorem reads_decodeResult : Reads decodeResult fun result push =>
    ∃ tag, SpellsSigned tag push ∧ Bytes.toInt tag = result.tag.toNat := by
  rw [decodeResult]
  refine Reads.offset_bind fun offset => ?_
  have htag : ∀ n : Int, Judges (if 0 ≤ n ∧ n < 256 then kindOfTag (UInt8.ofNat n.toNat)
      else throw (.resultTag offset)) fun result => n = result.tag.toNat := by
    intro n
    split
    · next hn =>
      refine (judges_kindOfTag _).congr fun result bs => and_congr_left' ?_
      show result.tag = UInt8.ofNat n.toNat ↔ n = result.tag.toNat
      rw [← UInt8.toNat_inj, UInt8.toNat_ofNat']
      omega
    · next hn =>
      refine .fail (fun c => ⟨_, c, rfl⟩) ?_
      rintro result rfl
      have := result.tag.toNat_lt
      omega
  refine ((Script.reads_readSigned.map.mapError Error.ofWire).bind_judges htag).congr
    fun result push => ?_
  constructor
  · rintro ⟨_, ⟨tag, hspells, rfl⟩, hresult⟩
    exact ⟨tag, hspells, hresult⟩
  · rintro ⟨tag, hspells, hresult⟩
    exact ⟨_, ⟨tag, hspells, rfl⟩, hresult⟩

/-- Tags stand for the kinds that have them, one by one. -/
theorem kindsOfTags_eq_ok_iff {tags : Bytes} {kinds : List Kind} :
    kindsOfTags tags = .ok kinds ↔ kinds.map Kind.tag = tags := by
  rw [kindsOfTags]
  induction tags generalizing kinds with
  | nil =>
    rw [List.mapM_nil, List.map_eq_nil_iff]
    exact ⟨fun h => (Except.ok.inj h).symm, fun h => h ▸ rfl⟩
  | cons tag tags ih =>
    rw [List.mapM_cons, Except.bind_eq_ok_iff]
    simp only [Except.bind_eq_ok_iff, ih, List.map_eq_cons_iff]
    constructor
    · rintro ⟨kind, hkind, kinds, hkinds, ⟨⟩⟩
      refine ⟨kind, kinds, rfl, ?_, hkinds⟩
      split at hkind
      · next h =>
        cases hkind
        exact Kind.tag_of_ofTag? h
      · cases hkind
    · rintro ⟨kind, kinds, rfl, rfl, hkinds⟩
      exact ⟨kind, by rw [Kind.ofTag?_tag], kinds, hkinds, rfl⟩

/-- The kinds of the arguments are read from a push of their tags. -/
theorem reads_decodeParameters : Reads decodeParameters fun kinds push =>
    SpellsData (kinds.map Kind.tag) push := by
  rw [decodeParameters]
  refine ((Script.reads_readData.mapError Error.ofWire).bind_judges
    (R := fun tags kinds => kinds.map Kind.tag = tags) fun tags => ?_).congr fun kinds push => ?_
  · split
    · next kinds h =>
      refine .pure fun kinds' => ?_
      rw [← kindsOfTags_eq_ok_iff, h, Except.ok.injEq]
      exact eq_comm
    · next e h =>
      refine .fail (fun c => ⟨_, c, rfl⟩) fun kinds hkinds => ?_
      cases (kindsOfTags_eq_ok_iff.2 hkinds).symm.trans h
  · simp only [exists_eq_right']

/-- What the decoder reads as an entry point are its spellings. -/
theorem reads_decode : Reads decode Spells := by
  rw [decode]
  refine (reads_decodeCapabilities.bind fun capabilities => reads_decodeResult.bind fun result =>
    reads_decodeParameters.map).congr fun p bs => ?_
  constructor
  · rintro ⟨_, _, _, ⟨flags, hflags, hcapabilities⟩, ⟨_, _, _, ⟨tag, htag, hresult⟩,
      ⟨kinds, hkinds, rfl⟩, rfl⟩, rfl⟩
    exact .mk hflags hcapabilities htag hresult hkinds
  · rintro ⟨hflags, hcapabilities, htag, hresult, hkinds⟩
    exact ⟨_, _, _, ⟨_, hflags, hcapabilities⟩,
      ⟨_, _, _, ⟨_, htag, hresult⟩, ⟨_, hkinds, rfl⟩, rfl⟩, rfl⟩

/-- A whole script is read if the decoder reads it up to the end. -/
theorem wholeScript_eq_ok_iff {α : Type} {d : DecoderOf Error α} {bs : Bytes} {x : α} :
    wholeScript d bs = .ok x ↔ ∃ c, d (.start bs) = .ok x c ∧ c.rest = [] := by
  rw [wholeScript, EStateM.run]
  split
  · next e c hd =>
    refine iff_of_false nofun ?_
    rintro ⟨c', hd', -⟩
    cases hd.symm.trans hd'
  · next y c hd =>
    rw [Wire.Cursor.atEnd]
    constructor
    · split
      · next hend =>
        rintro ⟨⟩
        exact ⟨c, hd, List.isEmpty_iff.1 hend⟩
      · nofun
    · rintro ⟨c', hd', hend⟩
      cases hd.symm.trans hd'
      rw [hend]
      rfl

/-- What is read as an entry point are its spellings. -/
theorem ofBytes_eq_ok_iff {p : EntryPoint} {bs : Bytes} : ofBytes bs = .ok p ↔ p.Spells bs :=
  wholeScript_eq_ok_iff.trans reads_decode.whole_iff

/-- An entry point is written if the tags of its arguments have room in one push. -/
theorem emit_failure_eq_none_iff {p : EntryPoint} : p.emit.failure = none ↔ p.Pushable := by
  rw [emit, Emission.andThen_failure_eq_none_iff, Script.pushData_failure_eq_none_iff,
    List.length_map]
  exact and_iff_right rfl

/-- It is written in its shortest form. -/
theorem emit_bytes {p : EntryPoint} (h : p.Pushable) : p.emit.bytes = p.pushes := by
  rw [emit, Emission.andThen_bytes rfl, Script.pushData_bytes (by rwa [List.length_map]), pushes]
  exact List.append_assoc _ _ _

/-- The declaration is written exactly if it has room in the pushes. -/
theorem encode_eq_ok_iff {p : EntryPoint} {bs : Bytes} :
    p.encode = .ok bs ↔ p.Pushable ∧ p.pushes = bs := by
  rw [encode, Emission.mapError_toExcept_eq_ok_iff, emit_failure_eq_none_iff]
  exact and_congr_right fun h => by rw [emit_bytes h]

/-- A byte is pushed as a number of its two's complement. -/
theorem spellsSigned_byte (b : UInt8) :
    SpellsSigned (Bytes.ofInt b.toNat) (pushInteger b.toNat) := by
  have hwidth : (Bytes.ofInt b.toNat).length ≤ 2 := by
    have := b.toNat_lt
    rw [Bytes.length_ofInt, Bytes.signedWidth_le_iff, Bytes.Fits]
    omega
  exact Script.spellsSigned_pushInteger (Nat.le_trans hwidth (by decide))

/-- The capabilities are written as a number without an operand, whose low byte has their bits. -/
theorem pushInteger_toFlags (c : Capabilities) :
    (pushInteger c.toFlags.toNat).length = 1 ∧
      (Bytes.ofInt c.toFlags.toNat).headD 0 = c.toFlags := by
  obtain ⟨storage, dynamicCalls, payable⟩ := c
  cases storage <;> cases dynamicCalls <;> cases payable <;> decide

/-- The shortest form is a spelling. -/
theorem spells_pushes {p : EntryPoint} (h : p.Pushable) : p.Spells p.pushes := by
  refine .mk (spellsSigned_byte _) ?_ (spellsSigned_byte _) (Bytes.toInt_ofInt _)
    (Script.spellsData_rawPush ?_)
  · rw [(pushInteger_toFlags _).2, Capabilities.ofFlags_toFlags]
  · rwa [List.length_map]

/-- Only an entry point whose arguments have room in one push can be spelled. -/
theorem Spells.pushable {p : EntryPoint} {bs : Bytes} (h : p.Spells bs) : p.Pushable := by
  obtain ⟨-, -, -, -, hkinds⟩ := h
  have hlength := hkinds.length_le
  rwa [List.length_map] at hlength

/-- No other pushes of the declaration are shorter. -/
theorem Spells.length_pushes_le {p : EntryPoint} {bs : Bytes} (h : p.Spells bs) :
    p.pushes.length ≤ bs.length := by
  obtain ⟨hflags, -, htag, hresult, hkinds⟩ := h
  have hflags' := hflags.length_pos
  have htag' := htag.length_pushInteger_le
  have hkinds' := hkinds.length_rawPush_le
  rw [hresult] at htag'
  simp only [pushes, List.length_append, (pushInteger_toFlags _).1]
  omega

end EntryPoint

/-! ## Deployments -/

namespace Deployment

variable {d : Deployment} {bs : Bytes}

/-- All that is pushed to deploy the contract has room in the pushes. -/
def Pushable (d : Deployment) : Prop := d.description.Pushable ∧ d.entryPoint.Pushable

/-- The call that creates a contract. -/
def call : Bytes :=
  Script.Opcode.sysCall.byte :: UInt8.ofNat (Bytes.ofText createService).length ::
    Bytes.ofText createService

/-- The script of the shortest form. -/
def pushes (d : Deployment) : Bytes :=
  d.description.pushes.flatten ++ (d.entryPoint.pushes ++ (rawPush d.script ++ call))

/-- The name of the service that creates contracts has nineteen bytes. -/
theorem length_createService : (Bytes.ofText createService).length = 19 := by
  rw [Bytes.ofText_eq]
  rfl

/-- So a call of the service can be written. -/
theorem sysCall_createService : Script.sysCall createService = .ok call := by
  rw [Script.sysCall, if_neg, call]
  rw [Bytes.ofText_eq]
  decide

/-- The call has one spelling. -/
theorem spellsCall_iff : SpellsCall createService bs ↔ bs = call := by
  constructor
  · rintro ⟨-⟩
    rfl
  · rintro rfl
    exact .mk (by rw [length_createService]; decide)

/-- Only a call of that service is read. -/
theorem reads_decodeCall : Reads decodeCall fun _ bs => SpellsCall createService bs := by
  rw [decodeCall]
  refine Reads.offset_bind fun offset => ?_
  have hname : ∀ name, Judges (if name ≠ createService then throw (.service offset name)
      else pure () : DecoderOf Error Unit) fun _ => name = createService := by
    intro name
    split
    · next hne => exact .fail (fun c => ⟨_, c, rfl⟩) fun _ => hne
    · next heq => exact .pure fun _ => iff_of_true (Decidable.of_not_not heq) rfl
  refine ((Script.reads_readSysCall.mapError Error.ofWire).bind_judges hname).congr fun _ bs => ?_
  simp only [exists_eq_right]

/-- What is read are the spellings of the deployment, whether or not its script is one. -/
theorem reads_decode : Reads decode fun x bs => ∃ description entryPoint script call,
    x.2.2.Spells description ∧ x.2.1.Spells entryPoint ∧ SpellsData x.1 script ∧
      SpellsCall createService call ∧ bs = description ++ (entryPoint ++ (script ++ call)) := by
  rw [decode]
  refine (Description.reads_decode.bind fun description => EntryPoint.reads_decode.bind
    fun entryPoint => (Script.reads_readData.mapError Error.ofWire).bind fun script =>
      reads_decodeCall.map).congr fun x bs => ?_
  constructor
  · rintro ⟨_, _, _, hdescription, ⟨_, _, _, hentryPoint, ⟨_, _, _, hscript, ⟨_, hcall, rfl⟩,
      rfl⟩, rfl⟩, rfl⟩
    exact ⟨_, _, _, _, hdescription, hentryPoint, hscript, hcall, rfl⟩
  · rintro ⟨_, _, _, _, hdescription, hentryPoint, hscript, hcall, rfl⟩
    exact ⟨_, _, _, hdescription, ⟨_, _, _, hentryPoint, ⟨_, _, _, hscript, ⟨(), hcall, rfl⟩, rfl⟩,
      rfl⟩, rfl⟩

/-- A script, an entry point and a description make up the deployment that consists of them. -/
theorem ofScript_eq_ok_iff {script : Bytes} {entryPoint : EntryPoint} {description : Description} :
    ofScript script entryPoint description = .ok d ↔
      d.script = script ∧ d.entryPoint = entryPoint ∧ d.description = description := by
  rw [ofScript]
  constructor
  · intro h
    split at h
    · split at h
      · cases h
        exact ⟨rfl, rfl, rfl⟩
      · cases h
    · cases h
  · rintro ⟨rfl, rfl, rfl⟩
    rw [dif_pos d.length_pos, dif_pos d.length_le]

/-- A script is read as a deployment exactly if it is one of its spellings. -/
theorem ofBytes_eq_ok_iff : ofBytes bs = .ok d ↔ d.Spells bs := by
  rw [ofBytes, Except.bind_eq_ok_iff]
  simp only [EntryPoint.wholeScript_eq_ok_iff, reads_decode.whole_iff]
  constructor
  · rintro ⟨x, ⟨_, _, _, _, hdescription, hentryPoint, hdata, hcall, rfl⟩, hscript⟩
    obtain ⟨hs, he, hd⟩ := ofScript_eq_ok_iff.1 hscript
    exact .mk (hd ▸ hdescription) (he ▸ hentryPoint) (hs ▸ hdata) hcall
  · rintro ⟨hdescription, hentryPoint, hdata, hcall⟩
    exact ⟨(d.script, d.entryPoint, d.description),
      ⟨_, _, _, _, hdescription, hentryPoint, hdata, hcall, rfl⟩,
      ofScript_eq_ok_iff.2 ⟨rfl, rfl, rfl⟩⟩

/-- One push has room for any script that a contract may have. -/
theorem length_script_le (d : Deployment) : d.script.length ≤ Limits.maxPushLength :=
  Nat.le_trans d.length_le (by decide)

/-- A deployment is written if its description and its entry point are. -/
theorem emit_failure_eq_none_iff : d.emit.failure = none ↔ d.Pushable := by
  rw [emit, Emission.all_failure_eq_none_iff, List.forall_mem_cons, List.forall_mem_cons,
    List.forall_mem_cons, List.forall_mem_singleton, Description.emit_failure_eq_none_iff,
    EntryPoint.emit_failure_eq_none_iff, Script.pushData_failure_eq_none_iff, sysCall_createService]
  exact and_congr_right' (and_iff_left ⟨d.length_script_le, rfl⟩)

/-- It is written in its shortest form. -/
theorem emit_bytes (h : d.Pushable) : d.emit.bytes = d.pushes := by
  have hnone := Emission.all_failure_eq_none_iff.1 (emit_failure_eq_none_iff.2 h)
  rw [emit, Emission.all_bytes hnone, List.flatMap_cons, List.flatMap_cons, List.flatMap_cons,
    List.flatMap_singleton, Description.emit_bytes h.1, EntryPoint.emit_bytes h.2,
    Script.pushData_bytes d.length_script_le, sysCall_createService]
  rfl

/-- A deployment is written exactly if all of it has room in the pushes. -/
theorem encode_eq_ok_iff : d.encode = .ok bs ↔ d.Pushable ∧ d.pushes = bs := by
  rw [encode, Emission.mapError_toExcept_eq_ok_iff, emit_failure_eq_none_iff]
  exact and_congr_right fun h => by rw [emit_bytes h]

/-- The shortest form is a spelling. -/
theorem spells_pushes (h : d.Pushable) : d.Spells d.pushes :=
  .mk (Description.spells_pushes h.1) (EntryPoint.spells_pushes h.2)
    (Script.spellsData_rawPush d.length_script_le) (spellsCall_iff.2 rfl)

/-- Only a deployment that has room in the pushes can be spelled. -/
theorem Spells.pushable (h : d.Spells bs) : d.Pushable := by
  obtain ⟨hdescription, hentryPoint, -, -⟩ := h
  exact ⟨hdescription.pushable, hentryPoint.pushable⟩

/-- No other script that deploys the contract is shorter. -/
theorem Spells.length_pushes_le (h : d.Spells bs) : d.pushes.length ≤ bs.length := by
  obtain ⟨hdescription, hentryPoint, hscript, hcall⟩ := h
  have hdescription' := hdescription.length_pushes_le
  have hentryPoint' := hentryPoint.length_pushes_le
  have hscript' := hscript.length_rawPush_le
  obtain rfl := spellsCall_iff.1 hcall
  simp only [pushes, List.length_append] at *
  omega

end Deployment

end LedgerClient.Contract
