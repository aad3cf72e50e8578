import LedgerClient.Proofs.Script.Pieces

/-!
# What a refused operation leaves

An operation is refused if it is to push more bytes than one instruction may, or if the name of a
service is out of range (`Operation.failure_eq_some_iff`). A name, a text or bytes are looked at
before anything is written. The arguments of a call and the items of an array are pushed one after
another, and each is looked at in its turn. So where one of them is refused, the pieces before it
stay (`Operation.refused_keeps_front`), and the script is not what it was
(`Operation.refused_array_changes`).
-/

namespace LedgerClient.Script

open Wire (Emission)

/-! ## The piece that is refused -/

/-- No piece is without bytes. -/
theorem Piece.length_bytes_pos (piece : Piece) : 0 < piece.bytes.length := by
  cases piece with
  | number n => exact length_pushInteger_pos n
  | data bs => exact length_rawPush_pos bs
  | pack => exact Nat.one_pos
  | call contract => exact Nat.succ_pos _

/-- Only no pieces at all have no bytes. -/
theorem flatMap_bytes_eq_nil_iff {pieces : List Piece} :
    pieces.flatMap Piece.bytes = [] ↔ pieces = [] := by
  cases pieces with
  | nil => simp
  | cons piece pieces =>
    have hpos := piece.length_bytes_pos
    refine iff_of_false (fun h => ?_) nofun
    rw [List.flatMap_cons, List.append_eq_nil_iff] at h
    rw [h.1] at hpos
    exact Nat.lt_irrefl 0 hpos

/-- Pieces are written up to the first that is refused. -/
theorem all_emit_eq {front back : List Piece} {bs : Bytes} (hfront : ∀ piece ∈ front, piece.Short)
    (hlong : Limits.maxPushLength < bs.length) :
    Emission.all ((front ++ .data bs :: back).map Piece.emit) =
      ⟨front.flatMap Piece.bytes, some (.pushTooLong bs.length)⟩ := by
  have hnone : (Emission.all (front.map Piece.emit)).failure = none := by
    refine Emission.all_failure_eq_none_iff.2 ?_
    simp only [List.forall_mem_map, Piece.emit_failure_eq_none_iff]
    exact hfront
  have hfail : (Piece.data bs).emit = .fail (.pushTooLong bs.length) := by
    rw [Piece.emit, pushData, if_pos hlong]
    rfl
  rw [List.map_append, Emission.all_append, List.map_cons, Emission.all_cons, hfail,
    Emission.fail_andThen, Emission.andThen, hnone, (writes_all front).bytes hnone]
  simp [Emission.fail]

/-- Pieces are not written to the end only if one of them is refused. -/
theorem exists_of_all_emit {pieces : List Piece} {e : Error}
    (h : (Emission.all (pieces.map Piece.emit)).failure = some e) :
    ∃ front bs back, pieces = front ++ .data bs :: back ∧ (∀ piece ∈ front, piece.Short) ∧
      Limits.maxPushLength < bs.length ∧ e = .pushTooLong bs.length := by
  induction pieces with
  | nil => cases h
  | cons piece pieces ih =>
    rw [List.map_cons, Emission.all_cons, Emission.andThen] at h
    by_cases hshort : piece.Short
    · rw [Piece.emit_failure_eq_none_iff.2 hshort] at h
      obtain ⟨front, bs, back, rfl, hfront, hlong, he⟩ := ih h
      exact ⟨piece :: front, bs, back, rfl, List.forall_mem_cons.2 ⟨hshort, hfront⟩, hlong, he⟩
    · cases piece with
      | data bs =>
        have hlong := Nat.not_le.1 hshort
        rw [Piece.emit, pushData, if_pos hlong] at h
        cases h
        exact ⟨[], bs, pieces, rfl, List.forall_mem_nil _, hlong, rfl⟩
      | number n => exact absurd trivial hshort
      | pack => exact absurd trivial hshort
      | call contract => exact absurd trivial hshort

/-! ## Operations -/

/-- An operation that may be refused. -/
inductive Operation where
  | step (s : Step)
  /-- The call of a service by its name. -/
  | service (name : String)

namespace Operation

/-- What an operation adds, and whether it fails. -/
def emit : Operation → Emission Error
  | step s => s.emit
  | service name => .ofExcept (sysCall name)

/-- The script after an operation, whether it failed or not. -/
def after (op : Operation) (script : Bytes) : Bytes := script ++ op.emit.bytes

/-- The operation is refused with this error once these pieces are written. -/
inductive StopsAfter : Operation → List Piece → Error → Prop
  /-- The next piece would push too many bytes. -/
  | push {s : Step} {front back : List Piece} {bs : Bytes}
    (hpieces : s.pieces = front ++ .data bs :: back) (hfront : ∀ piece ∈ front, piece.Short)
    (hlong : Limits.maxPushLength < bs.length) :
    StopsAfter (step s) front (.pushTooLong bs.length)
  /-- The name of the service is empty or too long. -/
  | name {name : String} (h : (Bytes.ofText name).length = 0 ∨
      maxServiceName < (Bytes.ofText name).length) :
    StopsAfter (service name) [] (.serviceNameLength (Bytes.ofText name).length)

variable {op : Operation} {front : List Piece} {e : Error}

/-- An operation that is refused has written the pieces before. -/
theorem StopsAfter.emit_eq (h : op.StopsAfter front e) :
    op.emit = ⟨front.flatMap Piece.bytes, some e⟩ := by
  cases h with
  | push hpieces hfront hlong => rw [emit, Step.emit_eq, hpieces, all_emit_eq hfront hlong]
  | name h =>
    rw [emit, sysCall_eq, if_pos h]
    rfl

/-- An operation is refused exactly if it stops after some of its pieces. -/
theorem failure_eq_some_iff : op.emit.failure = some e ↔ ∃ front, op.StopsAfter front e := by
  constructor
  · intro h
    cases op with
    | step s =>
      rw [emit, Step.emit_eq] at h
      obtain ⟨front, bs, back, hpieces, hfront, hlong, rfl⟩ := exists_of_all_emit h
      exact ⟨front, .push hpieces hfront hlong⟩
    | service name =>
      rw [emit, sysCall_eq] at h
      split at h
      · next hname =>
        cases h
        exact ⟨[], .name hname⟩
      · cases h
  · intro ⟨front, h⟩
    rw [h.emit_eq]

/-- So the script has grown by these. -/
theorem StopsAfter.after_eq (h : op.StopsAfter front e) (script : Bytes) :
    op.after script = script ++ front.flatMap Piece.bytes := by
  rw [after, h.emit_eq]

/-- The operation is looked at as a whole before it is written: it writes one piece, or calls a
service. -/
def Single : Operation → Prop
  | step s => ∃ piece, s.pieces = [piece]
  | service _ => True

/-- Before the only piece of an operation there is none. -/
theorem StopsAfter.front_eq_nil (h : op.StopsAfter front e) (hsingle : op.Single) : front = [] := by
  cases h with
  | push hpieces =>
    obtain ⟨piece, hpiece⟩ := hsingle
    have hlength := congrArg List.length (hpiece.symm.trans hpieces)
    simp only [List.length_append, List.length_cons, List.length_nil] at hlength
    exact List.length_eq_zero_iff.1 (by omega)
  | name => rfl

/-- A refused operation leaves its pieces before the one that is refused, and so the script is as it
was exactly if there are none. That is so of all operations that write a single piece, and of the
calls of services. -/
theorem refused_keeps_front (script : Bytes) (h : op.emit.failure = some e) :
    (∃ front, op.StopsAfter front e ∧ op.after script = script ++ front.flatMap Piece.bytes ∧
      (op.after script = script ↔ front = [])) ∧
    (op.Single → op.after script = script) := by
  obtain ⟨front, hstops⟩ := failure_eq_some_iff.1 h
  have hafter := hstops.after_eq script
  constructor
  · refine ⟨front, hstops, hafter, ?_⟩
    rw [hafter, List.append_right_eq_self, flatMap_bytes_eq_nil_iff]
  · intro hsingle
    rw [hafter, hstops.front_eq_nil hsingle, List.flatMap_nil, List.append_nil]

/-- One byte more than an instruction may push. -/
def oversized : Bytes := List.replicate (Limits.maxPushLength + 1) 0

@[simp] theorem length_oversized : oversized.length = Limits.maxPushLength + 1 :=
  List.length_replicate

/-- An array of bytes that are too many, and of the number 1 after them. -/
def sampleArray : Operation := step (.parameter (.array [.byteArray oversized, .integer 1]))

/-- The last item is pushed first, and so the number is written before the bytes are refused. -/
theorem stopsAfter_sampleArray :
    sampleArray.StopsAfter [.number 1] (.pushTooLong (Limits.maxPushLength + 1)) := by
  have hpieces : (Step.parameter (.array [.byteArray oversized, .integer 1])).pieces =
      [.number 1] ++ .data oversized :: [.number 2, .pack] := by
    simp [Step.pieces, Parameter.pieces, Parameter.piecesOfAll]
  have hlong : Limits.maxPushLength < oversized.length := by simp
  rw [← length_oversized]
  exact .push hpieces (by simp [Piece.Short]) hlong

/-- The array is refused for its bytes. -/
theorem sampleArray_refused :
    sampleArray.emit.failure = some (.pushTooLong (Limits.maxPushLength + 1)) :=
  failure_eq_some_iff.2 ⟨_, stopsAfter_sampleArray⟩

/-- Bytes that are too many leave the script as it was, and in an array they leave what was pushed
before them. -/
theorem refused_keeps_front_sample :
    (∃ front, sampleArray.StopsAfter front (.pushTooLong (Limits.maxPushLength + 1)) ∧
      sampleArray.after [0x61] = 0x61 :: front.flatMap Piece.bytes) ∧
    (step (.data oversized)).after [0x61] = [0x61] := by
  have hlong : Limits.maxPushLength < oversized.length := by simp
  have hrefused : (step (.data oversized)).emit.failure = some (.pushTooLong oversized.length) :=
    failure_eq_some_iff.2 ⟨[], .push rfl (List.forall_mem_nil _) hlong⟩
  obtain ⟨⟨front, hstops, hafter, -⟩, -⟩ := refused_keeps_front [0x61] sampleArray_refused
  obtain ⟨-, hsingle⟩ := refused_keeps_front [0x61] hrefused
  exact ⟨⟨front, hstops, hafter⟩, hsingle ⟨_, rfl⟩⟩

/-- The array is refused, and its number is in the script that was empty. -/
theorem refused_array_changes :
    sampleArray.emit.failure = some (.pushTooLong (Limits.maxPushLength + 1)) ∧
    sampleArray.after [] = [0x51] ∧
    ¬ ∀ (op : Operation) (script : Bytes) (e : Error), op.emit.failure = some e →
      op.after script = script := by
  have hafter : sampleArray.after [] = [0x51] := stopsAfter_sampleArray.after_eq []
  refine ⟨sampleArray_refused, hafter, fun hkeeps => ?_⟩
  have hempty := hkeeps sampleArray [] _ sampleArray_refused
  rw [hafter] at hempty
  cases hempty

end Operation

end LedgerClient.Script
