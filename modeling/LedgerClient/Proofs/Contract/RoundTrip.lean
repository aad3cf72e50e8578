import LedgerClient.Proofs.Contract.Spelling

/-!
# Deployments that are written and read

A deployment is written exactly if what its author chose freely has room in the pushes, and read
back as it was (`Deployment.written_round_trip`). Whatever script is read as a deployment can be
written again as a script that means the same and is not longer (`Deployment.read_is_rewritten`).
-/

namespace LedgerClient.Contract

open Script (SpellsData SpellsLength)

/-- What is written of an entry point is read as the same. -/
theorem EntryPoint.ofBytes_of_encode {p : EntryPoint} {bs : Bytes} (h : p.encode = .ok bs) :
    EntryPoint.ofBytes bs = .ok p := by
  obtain ⟨hroom, rfl⟩ := EntryPoint.encode_eq_ok_iff.1 h
  exact EntryPoint.ofBytes_eq_ok_iff.2 (EntryPoint.spells_pushes hroom)

namespace Deployment

/-- A script is that of a deployment if it is not empty and not too long. -/
theorem exists_ofScript_iff {script : Bytes} {entryPoint : EntryPoint} {description : Description} :
    (∃ d, ofScript script entryPoint description = .ok d) ↔
      1 ≤ script.length ∧ script.length ≤ Limits.maxScriptLength := by
  constructor
  · rintro ⟨d, hd⟩
    obtain ⟨rfl, -, -⟩ := ofScript_eq_ok_iff.1 hd
    exact ⟨d.length_pos, d.length_le⟩
  · rintro ⟨hpos, hle⟩
    exact ⟨⟨script, entryPoint, description, hpos, hle⟩, ofScript_eq_ok_iff.2 ⟨rfl, rfl, rfl⟩⟩

/-- What is written of a deployment is read as the same. -/
theorem ofBytes_of_encode {d : Deployment} {bs : Bytes} (h : d.encode = .ok bs) :
    ofBytes bs = .ok d := by
  obtain ⟨hroom, rfl⟩ := encode_eq_ok_iff.1 h
  exact ofBytes_eq_ok_iff.2 (spells_pushes hroom)

/-- A deployment can be made of any script within the limits, is written exactly if each text and
the kinds of the arguments have room in a push, and is then read back as it was; so is the
declaration of its entry point alone. -/
theorem written_round_trip :
    (∀ (script : Bytes) (entryPoint : EntryPoint) (description : Description),
      ((∃ d, ofScript script entryPoint description = .ok d) ↔
        1 ≤ script.length ∧ script.length ≤ Limits.maxScriptLength) ∧
      ∀ d, ofScript script entryPoint description = .ok d →
        (d.script = script ∧ d.entryPoint = entryPoint ∧ d.description = description) ∧
        ((∃ bs, d.encode = .ok bs) ↔
          (∀ s ∈ description.texts, (Bytes.ofText s).length ≤ Limits.maxPushLength) ∧
            entryPoint.parameters.length ≤ Limits.maxPushLength) ∧
        ∀ bs, d.encode = .ok bs → ofBytes bs = .ok d) ∧
    ∀ (p : EntryPoint) (bs : Bytes), p.encode = .ok bs → EntryPoint.ofBytes bs = .ok p := by
  refine ⟨fun script entryPoint description => ⟨exists_ofScript_iff, fun d hd => ?_⟩,
    fun _ _ => EntryPoint.ofBytes_of_encode⟩
  obtain ⟨rfl, rfl, rfl⟩ := ofScript_eq_ok_iff.1 hd
  refine ⟨⟨rfl, rfl, rfl⟩, ?_, fun _ => ofBytes_of_encode⟩
  constructor
  · rintro ⟨bs, hbs⟩
    exact (encode_eq_ok_iff.1 hbs).1
  · exact fun hroom => ⟨d.pushes, encode_eq_ok_iff.2 ⟨hroom, rfl⟩⟩

/-- A text of two bytes, a tag that takes two bytes as a number, and so many kinds that their number
stands in a byte of its own. -/
theorem written_round_trip_sample :
    ∃ d bs, ofScript [0x61, 0x66] ⟨.replicate 80 .array, .void, ⟨true, false, true⟩⟩
        ⟨"é", "1", "", "", "d"⟩ = .ok d ∧
      bs = [0x01, 0x64, 0x00, 0x00, 0x01, 0x31, 0x02, 0xc3, 0xa9] ++
        [0x55, 0x02, 0xff, 0x00, 0x4c, 0x50] ++ .replicate 80 0x10 ++ [0x02, 0x61, 0x66] ++ call ∧
      d.encode = .ok bs ∧ ofBytes bs = .ok d := by
  have hscript := ofScript_eq_ok_iff (d := ⟨[0x61, 0x66], ⟨.replicate 80 .array, .void,
    ⟨true, false, true⟩⟩, ⟨"é", "1", "", "", "d"⟩, by decide, by decide⟩).2 ⟨rfl, rfl, rfl⟩
  obtain ⟨-, hwritten, hread⟩ := (written_round_trip.1 _ _ _).2 _ hscript
  have htexts : ∀ s ∈ ["d", "", "", "1", "é"], (Bytes.ofText s).length ≤ Limits.maxPushLength := by
    simp only [Bytes.ofText_eq]
    decide
  obtain ⟨bs, hbs⟩ := hwritten.2 ⟨htexts, by decide⟩
  refine ⟨_, bs, hscript, ?_, hbs, hread bs hbs⟩
  rw [← (encode_eq_ok_iff.1 hbs).2]
  simp only [pushes, Description.pushes, Description.texts, Bytes.ofText_eq]
  rfl

/-- Every script that is read as a deployment is one of its spellings, and the deployment is written
as a spelling that is not longer. -/
theorem read_is_rewritten :
    (∀ (bs : Bytes) (d : Deployment), ofBytes bs = .ok d ↔ d.Spells bs) ∧
    ∀ (bs : Bytes) (d : Deployment), ofBytes bs = .ok d →
      ∃ out, d.encode = .ok out ∧ ofBytes out = .ok d ∧ out.length ≤ bs.length := by
  refine ⟨fun bs d => ofBytes_eq_ok_iff, fun bs d hread => ?_⟩
  have hspells := ofBytes_eq_ok_iff.1 hread
  have hencode := encode_eq_ok_iff.2 ⟨hspells.pushable, rfl⟩
  exact ⟨d.pushes, hencode, ofBytes_of_encode hencode, hspells.length_pushes_le⟩

/-- A script with heads that are too long, a result with a byte to spare, and flags without a
meaning. -/
theorem read_is_rewritten_sample :
    ∃ d out, ofBytes ([0x4c, 0x01, 0x64, 0x00, 0x4d, 0x00, 0x00, 0x00, 0x01, 0x6e] ++
        [0x02, 0x0d, 0x80, 0x02, 0x05, 0x00, 0x4c, 0x01, 0x10] ++
        [0x4e, 0x01, 0x00, 0x00, 0x00, 0x66] ++ call) = .ok d ∧
      d.entryPoint = ⟨[.array], .byteArray, ⟨true, false, true⟩⟩ ∧ d.encode = .ok out ∧
      ofBytes out = .ok d ∧
      out = [0x01, 0x64, 0x00, 0x00, 0x00, 0x01, 0x6e] ++ [0x55, 0x55, 0x01, 0x10] ++
        [0x01, 0x66] ++ call := by
  -- The heads that are longer than they need be, of each width.
  have hlong : SpellsLength 1 [0x4c, 0x01] ∧ SpellsLength 0 [0x4d, 0x00, 0x00] ∧
      SpellsLength 1 [0x4e, 0x01, 0x00, 0x00, 0x00] :=
    ⟨.counted .pushData1 1 (by decide) (by decide),
      .counted .pushData2 2 (by decide) (by decide),
      .counted .pushData4 4 (by decide) (by decide)⟩
  have hdata : SpellsData [0x64] [0x4c, 0x01, 0x64] ∧ SpellsData [] [0x4d, 0x00, 0x00] ∧
      SpellsData [0x10] [0x4c, 0x01, 0x10] ∧
      SpellsData [0x66] [0x4e, 0x01, 0x00, 0x00, 0x00, 0x66] :=
    ⟨.mk [_, _] (by decide) hlong.1, .mk [_, _, _] (by decide) hlong.2.1,
      .mk [_, _] (by decide) hlong.1, .mk [_, _, _, _, _] (by decide) hlong.2.2⟩
  have hshort : SpellsData [] [0x00] ∧ SpellsData [0x6e] [0x01, 0x6e] ∧
      SpellsData [0x0d, 0x80] [0x02, 0x0d, 0x80] ∧ SpellsData [0x05, 0x00] [0x02, 0x05, 0x00] :=
    ⟨Script.spellsData_nil, Script.spellsData_rawPush (by decide),
      Script.spellsData_rawPush (by decide), Script.spellsData_rawPush (by decide)⟩
  have hdescription : Description.Spells ⟨"n", "", "", "", "d"⟩
      [0x4c, 0x01, 0x64, 0x00, 0x4d, 0x00, 0x00, 0x00, 0x01, 0x6e] := by
    refine .mk [[0x4c, 0x01, 0x64], [0x00], [0x4d, 0x00, 0x00], [0x00], [0x01, 0x6e]] ?_
    simp only [Description.texts, List.forall₂_cons, Bytes.ofText_eq]
    exact ⟨hdata.1, hshort.1, hdata.2.1, hshort.1, hshort.2.1, .nil⟩
  have hentryPoint : EntryPoint.Spells ⟨[.array], .byteArray, ⟨true, false, true⟩⟩
      [0x02, 0x0d, 0x80, 0x02, 0x05, 0x00, 0x4c, 0x01, 0x10] :=
    .mk (.data hshort.2.2.1) (by decide) (.data hshort.2.2.2) (by decide) hdata.2.2.1
  have hread := (read_is_rewritten.1 _ ⟨[0x66], _, _, by decide, by decide⟩).2
    (.mk hdescription hentryPoint hdata.2.2.2 (spellsCall_iff.2 rfl))
  obtain ⟨out, hencode, hback, -⟩ := read_is_rewritten.2 _ _ hread
  refine ⟨_, out, hread, rfl, hencode, hback, ?_⟩
  rw [← (encode_eq_ok_iff.1 hencode).2]
  simp only [pushes, Description.pushes, Description.texts, Bytes.ofText_eq]
  rfl

end Deployment

end LedgerClient.Contract
