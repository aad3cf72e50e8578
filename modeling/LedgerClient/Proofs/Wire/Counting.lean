import LedgerClient.Proofs.Wire.Restating

/-!
# Counts within a limit

A count is read back from what is written for it, whatever follows. Only then is it held against the
limit of its place, so that its bytes are taken in either case and a count above the limit is
refused with the place where it starts (`Count.read_write`). Longer forms are read as well, but none
is shorter than what is written, and none that is as long differs from it
(`Count.written_is_compact`).
-/

namespace LedgerClient.Wire.Count

open scoped Power

/-- What is read as a count is held against the limit afterwards. -/
theorem read_eq_of_count {max offset n : Nat} {bs : Bytes} {c : Cursor}
    (h : (Decoder.byte >>= readFrom) ⟨offset, bs⟩ = .ok n c) :
    read max ⟨offset, bs⟩ =
      if n ≤ max then .ok n c else .error (.malformed offset (.countAbove n max)) c := by
  have hbounded : readBounded max ⟨offset, bs⟩ =
      if hmax : n ≤ max then .ok ⟨n, hmax⟩ c
      else .error (.malformed offset (.countAbove n max)) c := by
    rw [readBounded, bind_eq_of_ok (d := Decoder.offset) rfl, ← bind_assoc, bind_eq_of_ok h]
    split <;> rfl
  by_cases hmax : n ≤ max
  · rw [dif_pos hmax] at hbounded
    rw [if_pos hmax, read, bind_eq_of_ok hbounded]
    rfl
  · rw [dif_neg hmax] at hbounded
    rw [if_neg hmax, read, bind_eq_of_error hbounded]

/-- What is written for a count is read back whatever follows, if the count is within the limit. -/
theorem read_write {n : Nat} (hn : n < 2 ^ (64 : Nat)) (max offset : Nat) (rest : Bytes) :
    read max ⟨offset, write n ++ rest⟩ =
      if n ≤ max then .ok n ⟨offset + size n, rest⟩
      else .error (.malformed offset (.countAbove n max)) ⟨offset + size n, rest⟩ := by
  have hcount := (decides_count hn).read offset rest
  rw [length_write] at hcount
  exact read_eq_of_count hcount

/-- What is read to its end as a count is condensed to what is written for it. -/
theorem condensed_of_read {max n : Nat} {bs : Bytes} {c c' : Cursor} (h : read max c = .ok n c')
    (hrest : c.rest = bs ++ c'.rest) : Condensed (write n) bs := by
  obtain ⟨taken, out, htaken, hout, rfl⟩ := restates_read max c n c' h
  rw [hrest, List.append_cancel_right_eq] at htaken
  exact htaken ▸ hout

/-- What is written for a count below 2⁶⁴ is taken as a whole, whatever follows. It is read as that
count if it is at most the limit, and refused otherwise, at the place where it starts. It has the
number of bytes that the size of the count says. Bytes that are read to their end as the same count
are no fewer, and if they are as many they are the same. -/
theorem written_is_compact {n : Nat} (hn : n < 2 ^ (64 : Nat)) (max offset : Nat) :
    (∀ rest : Bytes, read max ⟨offset, write n ++ rest⟩ =
      if n ≤ max then .ok n ⟨offset + (write n).length, rest⟩
      else .error (.malformed offset (.countAbove n max)) ⟨offset + (write n).length, rest⟩) ∧
    (write n).length = size n ∧
    ∀ (bs : Bytes) (c : Cursor), read max ⟨offset, bs⟩ = .ok n c → c.rest = [] →
      (write n).length ≤ bs.length ∧ (bs.length = (write n).length → bs = write n) := by
  refine ⟨fun rest => ?_, length_write n, fun bs c hread hend => ?_⟩
  · rw [length_write]
    exact read_write hn max offset rest
  · have hcondensed : Condensed (write n) bs :=
      condensed_of_read hread (by rw [hend, List.append_nil])
    refine ⟨hcondensed.length_le, fun hlength => ?_⟩
    exact (hcondensed.eq_of_length_eq hlength.symm).symm

/-- The least count that needs a mark, one above the limit and at it, and a form of it with two
bytes more than it needs. -/
theorem written_is_compact_sample :
    253 < 2 ^ (64 : Nat) ∧
    read 252 ⟨7, write 253 ++ [0x2a]⟩ = .error (.malformed 7 (.countAbove 253 252)) ⟨10, [0x2a]⟩ ∧
    read 253 ⟨7, write 253 ++ [0x2a]⟩ = .ok 253 ⟨10, [0x2a]⟩ ∧
    read 253 ⟨7, [0xfe, 0xfd, 0, 0, 0]⟩ = .ok 253 ⟨12, []⟩ ∧
    (write 253).length ≤ 5 := by
  have hn : 253 < 2 ^ (64 : Nat) := by decide
  obtain ⟨hrefused, -, -⟩ := written_is_compact hn 252 7
  obtain ⟨htaken, -, hshortest⟩ := written_is_compact hn 253 7
  have hlong : read 253 ⟨7, [0xfe, 0xfd, 0, 0, 0]⟩ = .ok 253 ⟨12, []⟩ := rfl
  exact ⟨hn, hrefused [0x2a], htaken [0x2a], hlong, (hshortest _ _ hlong rfl).1⟩

end LedgerClient.Wire.Count
