import LedgerClient.Proofs.Script.Spelling
import LedgerClient.Proofs.Wire.Truncation

/-!
# Scripts that end too early

The readers of pushes and calls take their bytes one after another. That is so of numbers too, whose
reader looks at the first byte of a push before it takes it (`incremental_readSigned`).
-/

namespace LedgerClient.Script

open Wire (Decoder EndsEarly Incremental Takes)

/-- The number of pushed bytes is taken behind its instruction. -/
theorem incremental_readPushLength (offset : Nat) (opcode : UInt8) :
    Incremental .endOfInput (readPushLength offset opcode) := by
  rw [readPushLength]
  split
  · exact .pure _
  split
  · exact .pure _
  split
  · exact Wire.incremental_number 1
  split
  · exact Wire.incremental_number 2
  split
  · exact Wire.incremental_number 4
  · exact .fail fun c => ⟨_, c, rfl⟩

/-- Pushed bytes are taken after their number. -/
theorem incremental_readData : Incremental .endOfInput readData := by
  refine Wire.incremental_offset.bind fun offset => Wire.incremental_byte.bind fun opcode =>
    (incremental_readPushLength offset opcode).bind fun length => ?_
  split
  · exact .fail fun c => ⟨_, c, rfl⟩
  · exact Wire.incremental_take length

/-- An instruction that pushes a number is taken with the byte that was looked at. -/
theorem takes_readSigned_cons {offset : Nat} {b : UInt8} {t : Bytes} {signed : Bytes}
    (hwhole : ∀ rest, readSigned ⟨offset, b :: (t ++ rest)⟩ =
      .ok signed ⟨offset + (t.length + 1), rest⟩)
    (hcut : ∀ k < t.length, EndsEarly .endOfInput (offset + (k + 1)) (t.length - k)
      (readSigned ⟨offset, b :: t.take k⟩)) :
    Takes .endOfInput readSigned offset (b :: t) signed where
  whole := hwhole
  cut {k} hk := by
    cases k with
    | zero => exact ⟨offset, 1, _, rfl, Nat.le_refl _, Nat.le_refl _, hk⟩
    | succ k =>
      have := hcut k (Nat.lt_of_succ_lt_succ hk)
      rwa [List.length_cons, Nat.add_sub_add_right]

/-- A number is taken as a whole though its first byte is looked at before: the instructions without
an operand are taken by that byte alone, and any other push as bytes are. -/
theorem incremental_readSigned : Incremental .endOfInput readSigned := by
  rintro ⟨offset, rest⟩ signed c' hd
  cases rest with
  | nil => cases hd
  | cons b back =>
    rw [readSigned_cons] at hd
    split at hd
    · next hb =>
      cases hd
      exact ⟨[b], rfl, takes_readSigned_cons
        (fun _ => by rw [readSigned_cons, if_pos hb]; rfl) nofun⟩
    split at hd
    · next hzero hb =>
      cases hd
      exact ⟨[b], rfl, takes_readSigned_cons
        (fun _ => by rw [readSigned_cons, if_neg hzero, if_pos hb]; rfl) nofun⟩
    split at hd
    · next hzero hminus hb =>
      cases hd
      exact ⟨[b], rfl, takes_readSigned_cons
        (fun _ => by rw [readSigned_cons, if_neg hzero, if_neg hminus, if_pos hb]; rfl) nofun⟩
    split at hd
    -- What pushes bytes is left to the reader of data, with the first byte still in front.
    · next hzero hminus hsmall hb =>
      have hdata : ∀ t, readSigned ⟨offset, b :: t⟩ = readData ⟨offset, b :: t⟩ := fun t => by
        rw [readSigned_cons, if_neg hzero, if_neg hminus, if_neg hsmall, if_pos hb]
      obtain ⟨bs, hrest, htakes⟩ := incremental_readData _ _ _ hd
      cases bs with
      | nil => cases htakes.whole []
      | cons b' t =>
        cases hrest
        refine ⟨b :: t, rfl, takes_readSigned_cons (fun rest => ?_) fun k hk => ?_⟩
        · rw [hdata]
          exact htakes.whole rest
        · rw [hdata]
          have := htakes.cut (Nat.succ_lt_succ hk)
          rwa [List.length_cons, Nat.add_sub_add_right] at this
    · cases hd

/-- So is its value. -/
theorem incremental_readInteger : Incremental .endOfInput readInteger := incremental_readSigned.map

/-- A text takes the bytes of a push. -/
theorem incremental_readText : Incremental .endOfInput readText := by
  refine Wire.incremental_offset.bind fun offset => incremental_readData.bind fun bs => ?_
  split
  · exact .pure _
  · exact .fail fun c => ⟨_, c, rfl⟩

/-- The name of a service is taken after its length. -/
theorem incremental_readSysCall : Incremental .endOfInput readSysCall := by
  refine Wire.incremental_offset.bind fun offset => Wire.incremental_byte.bind fun opcode => ?_
  split
  · exact .fail fun c => ⟨_, c, rfl⟩
  refine Wire.incremental_byte.bind fun length => (Wire.incremental_take _).bind fun bs => ?_
  split
  · exact .pure _
  · exact .fail fun c => ⟨_, c, rfl⟩

end LedgerClient.Script
