import LedgerClient.Proofs.Script.Spelling

/-!
# Pushes are shortest

Every push and every service call is read back as what it was written for, wherever it stands in a
script, and nothing shorter is read as the same (`pushes_are_shortest`). Both follow from what the
readers read at all: what is written is one of the spellings that are read, and none of them is
shorter (`ShortestSpelling.of_reads`).
-/

namespace LedgerClient

namespace Wire

variable {ε α : Type}

/-- The place between the first bytes of an input and the bytes after them. -/
def Cursor.after (front rest : Bytes) : Cursor := ⟨front.length, rest⟩

/-- The bytes are read as the value wherever they stand in an input, up to their end, and no fewer
bytes are read as it to their end. -/
structure ShortestSpelling (d : DecoderOf ε α) (x : α) (bs : Bytes) : Prop where
  readBack (front rest : Bytes) :
    d (.after front (bs ++ rest)) = .ok x (.after (front ++ bs) rest)
  shortest {other : Bytes} {c : Cursor} :
    d (.start other) = .ok x c → c.rest = [] → bs.length ≤ other.length

/-- Of all spellings that a decoder reads, one that is not longer than the others is shortest. -/
theorem ShortestSpelling.of_reads {d : DecoderOf ε α} {G : α → Bytes → Prop} (h : Reads d G) {x : α}
    {bs : Bytes} (hbs : G x bs) (hleast : ∀ {other}, G x other → bs.length ≤ other.length) :
    ShortestSpelling d x bs where
  readBack front rest := by
    rw [Cursor.after, Cursor.after, List.length_append]
    exact (h.complete hbs).read front.length rest
  shortest hread hend := hleast (h.whole_iff.1 ⟨_, hread, hend⟩)

end Wire

namespace Script

open Wire (ShortestSpelling)

/-- The push of a number whose two's complement one instruction may push. -/
theorem shortestSpelling_pushInteger {n : Int}
    (h : (Bytes.ofInt n).length ≤ Limits.maxPushLength) :
    ShortestSpelling readInteger n (pushInteger n) := by
  refine .of_reads reads_readInteger ?_ ?_
  · exact ⟨_, spellsSigned_pushInteger h, (Bytes.toInt_ofInt n).symm⟩
  · rintro other ⟨signed, hother, rfl⟩
    exact hother.length_pushInteger_le

/-- The push of as many bytes as one instruction may push. -/
theorem shortestSpelling_rawPush {bs : Bytes} (h : bs.length ≤ Limits.maxPushLength) :
    ShortestSpelling readData bs (rawPush bs) :=
  .of_reads reads_readData (spellsData_rawPush h) SpellsData.length_rawPush_le

/-- The push of a text that is as short. -/
theorem shortestSpelling_rawPush_text {s : String}
    (h : (Bytes.ofText s).length ≤ Limits.maxPushLength) :
    ShortestSpelling readText s (rawPush (Bytes.ofText s)) :=
  .of_reads reads_readText (spellsData_rawPush h) SpellsData.length_rawPush_le

/-- A service is called by a name that is neither empty nor too long. -/
theorem sysCall_eq_ok_iff {name : String} {call : Bytes} : sysCall name = .ok call ↔
    1 ≤ (Bytes.ofText name).length ∧ (Bytes.ofText name).length ≤ maxServiceName ∧
      Opcode.sysCall.byte :: UInt8.ofNat (Bytes.ofText name).length :: Bytes.ofText name = call := by
  rw [sysCall_eq]
  split
  · next hrange =>
    refine iff_of_false nofun fun h => ?_
    omega
  · next hrange =>
    rw [not_or] at hrange
    constructor
    · intro h
      exact ⟨by omega, by omega, Except.ok.inj h⟩
    · intro ⟨_, _, h⟩
      exact congrArg _ h

/-- The call of a service by a name in range. There is one spelling of it. -/
theorem shortestSpelling_sysCall {name : String} {call : Bytes} (h : sysCall name = .ok call) :
    ShortestSpelling readSysCall name call := by
  have hmax : maxServiceName < 256 := by decide
  obtain ⟨-, hlength, rfl⟩ := sysCall_eq_ok_iff.1 h
  refine .of_reads reads_readSysCall (.mk (by omega)) ?_
  rintro other ⟨-⟩
  exact Nat.le_refl _

/-- Numbers, bytes, texts and service calls are written if they are in range, read back wherever
they stand in a script, and written in the fewest bytes that are read as the same. -/
theorem pushes_are_shortest :
    (∀ n : Int, (Bytes.ofInt n).length ≤ Limits.maxPushLength →
      ShortestSpelling readInteger n (pushInteger n)) ∧
    (∀ bs : Bytes, bs.length ≤ Limits.maxPushLength →
      ∃ push, pushData bs = .ok push ∧ ShortestSpelling readData bs push) ∧
    (∀ s : String, (Bytes.ofText s).length ≤ Limits.maxPushLength →
      ∃ push, pushText s = .ok push ∧ ShortestSpelling readText s push) ∧
    (∀ name : String, 1 ≤ (Bytes.ofText name).length →
      (Bytes.ofText name).length ≤ maxServiceName →
      ∃ call, sysCall name = .ok call ∧ ShortestSpelling readSysCall name call) := by
  refine ⟨fun n => shortestSpelling_pushInteger, ?_, ?_, ?_⟩
  · intro bs h
    exact ⟨_, pushData_eq_ok_iff.2 ⟨h, rfl⟩, shortestSpelling_rawPush h⟩
  · intro s h
    exact ⟨_, pushData_eq_ok_iff.2 ⟨h, rfl⟩, shortestSpelling_rawPush_text h⟩
  · intro name hpos hmax
    have hcall := sysCall_eq_ok_iff.2 ⟨hpos, hmax, rfl⟩
    exact ⟨_, hcall, shortestSpelling_sysCall hcall⟩

/-- The number 300 takes three bytes, after a text as well as before one, and the name of a service
two more than its own. -/
theorem pushes_are_shortest_sample :
    readInteger (.after [0x01, 0x61] ([0x02, 0x2c, 0x01] ++ [0x01, 0x62])) =
      .ok 300 (.after ([0x01, 0x61] ++ [0x02, 0x2c, 0x01]) [0x01, 0x62]) ∧
    (∀ other c, readInteger (.start other) = .ok 300 c → c.rest = [] → 3 ≤ other.length) ∧
    (∃ push, pushData [0x6e, 0x65, 0x6f] = .ok push ∧
      ShortestSpelling readData [0x6e, 0x65, 0x6f] push) ∧
    (∃ push, pushText "neo" = .ok push ∧ ShortestSpelling readText "neo" push) ∧
    ∃ call, sysCall "Runtime.Log" = .ok call ∧ ShortestSpelling readSysCall "Runtime.Log" call := by
  obtain ⟨hinteger, hdata, htext, hcall⟩ := pushes_are_shortest
  have hspelling := hinteger 300 (by decide)
  have hpush : pushInteger 300 = [0x02, 0x2c, 0x01] := by decide
  rw [hpush] at hspelling
  have hname : (Bytes.ofText "Runtime.Log").length = 11 := by decide +kernel
  refine ⟨hspelling.readBack _ _, ?_, hdata _ (by decide), htext _ (by decide +kernel), ?_⟩
  · intro other c hread hend
    exact hspelling.shortest hread hend
  · refine hcall _ ?_ ?_
    · rw [hname]
      decide
    · rw [hname]
      decide

end Script

end LedgerClient
