import LedgerClient.Proofs.Bytes.Signed
import LedgerClient.Proofs.Bytes.Text
import LedgerClient.Proofs.Script.Pushable
import LedgerClient.Proofs.Wire.Spelling
import LedgerClient.Script.Reading
import Mathlib.Tactic.SplitIfs

/-!
# All forms of a push

Bytes are pushed under a head that says how many they are, and any head that has room for their
number will do (`SpellsData`). A number may be pushed in any bytes that spell it as two's
complement, or by an instruction without an operand (`SpellsSigned`). These are the forms that are
read (`reads_readData`, `reads_readSigned`), and the form that is written is one of them that is not
longer than any other (`SpellsData.length_rawPush_le`, `SpellsSigned.length_pushInteger_le`).
-/

namespace LedgerClient.Script

open Wire (Decides Decoder Judges Reads)
open scoped Power

/-! ## Spellings -/

/-- The instructions that push bytes after their number, with the width of that number. -/
def countedPushes : List (Opcode × Nat) := [(.pushData1, 1), (.pushData2, 2), (.pushData4, 4)]

/-- The heads that say that so many bytes are pushed. -/
inductive SpellsLength : Nat → Bytes → Prop where
  /-- The instruction is the number. -/
  | direct {length : Nat} (h : length ≤ Opcode.maxDirectPush) :
    SpellsLength length [UInt8.ofNat length]
  /-- The number comes after the instruction. -/
  | counted {length : Nat} (op : Opcode) (width : Nat) (hop : (op, width) ∈ countedPushes)
    (h : length < 256 ^ width) : SpellsLength length (op.byte :: Bytes.littleEndian width length)

/-- The pushes of given bytes, if one instruction may push as many. -/
inductive SpellsData (bs : Bytes) : Bytes → Prop where
  | mk (head : Bytes) (hlength : bs.length ≤ Limits.maxPushLength)
    (hhead : SpellsLength bs.length head) : SpellsData bs (head ++ bs)

/-- The pushes of a number, given by the two's complement that lies on the stack afterwards. -/
inductive SpellsSigned : Bytes → Bytes → Prop where
  | minusOne : SpellsSigned (Bytes.ofInt (-1)) [Opcode.pushM1.byte]
  | small (less : Fin 16) :
    SpellsSigned (Bytes.ofInt (less.val + 1)) [(Opcode.pushSmall less).byte]
  | data {bs push : Bytes} (h : SpellsData bs push) : SpellsSigned bs push

/-- The call of a service by a name. -/
inductive SpellsCall (name : String) : Bytes → Prop where
  | mk (h : (Bytes.ofText name).length < 256) : SpellsCall name
    (Opcode.sysCall.byte :: UInt8.ofNat (Bytes.ofText name).length :: Bytes.ofText name)

/-- There are three widths for the number of pushed bytes. -/
theorem mem_countedPushes_iff {op : Opcode} {width : Nat} : (op, width) ∈ countedPushes ↔
    op = .pushData1 ∧ width = 1 ∨ op = .pushData2 ∧ width = 2 ∨ op = .pushData4 ∧ width = 4 := by
  simp [countedPushes]

/-- The instruction for zero pushes no bytes. -/
theorem spellsData_nil : SpellsData [] [Opcode.push0.byte] :=
  .mk [Opcode.push0.byte] (by decide) (.direct (by decide))

/-! ## What is read -/

/-- Instructions up to the largest are themselves the number of bytes. -/
theorem isDirectPush_iff {b : UInt8} :
    Opcode.isDirectPush b = true ↔ 1 ≤ b.toNat ∧ b.toNat ≤ Opcode.maxDirectPush := by
  rw [Opcode.isDirectPush, Bool.and_eq_true, decide_eq_true_eq, decide_eq_true_eq]

/-- Such a number is a byte. -/
theorem toNat_ofNat_of_le {n : Nat} (h : n ≤ Opcode.maxDirectPush) : (UInt8.ofNat n).toNat = n := by
  rw [Opcode.maxDirectPush] at h
  rw [UInt8.toNat_ofNat']
  omega

/-- The number of pushed bytes is read from all heads that say it. Whether it may be pushed is
checked later. -/
theorem reads_pushLength (offset : Nat) :
    Reads (Decoder.byte >>= readPushLength offset) SpellsLength where
  sound hd := by
    obtain ⟨b, c, hb, hlength⟩ := Wire.exists_of_bind_eq_ok hd
    obtain ⟨_, hrest, rfl⟩ := Wire.reads_byte.sound hb
    -- The three instructions with a number behind them are read alike, but for its width.
    have hcounted : ∀ {op : Opcode} {width : Nat}, (op, width) ∈ countedPushes → b = op.byte →
        ∀ {length c'}, Decoder.number width c = .ok length c' →
        ∃ bs, [b] ++ c.rest = bs ++ c'.rest ∧ SpellsLength length bs := by
      rintro op width hop rfl length c' hnumber
      obtain ⟨_, hwidth, hlt, rfl⟩ := (Wire.reads_number width).sound hnumber
      exact ⟨_, by rw [hwidth]; rfl, .counted op width hop hlt⟩
    rw [hrest]
    rw [readPushLength] at hlength
    split at hlength
    · next hzero =>
      cases hlength
      exact ⟨[b], rfl, hzero ▸ .direct (Nat.zero_le _)⟩
    split at hlength
    · next hdirect =>
      cases hlength
      have hspells := SpellsLength.direct (isDirectPush_iff.1 hdirect).2
      rw [UInt8.ofNat_toNat] at hspells
      exact ⟨[b], rfl, hspells⟩
    split at hlength
    · next hop => exact hcounted (by decide) hop hlength
    split at hlength
    · next hop => exact hcounted (by decide) hop hlength
    split at hlength
    · next hop => exact hcounted (by decide) hop hlength
    · cases hlength
  complete {length head} hspells := by
    -- It is enough to look at what is read behind the first byte.
    have hmark : ∀ (b : UInt8) (t : Bytes), Decides (readPushLength offset b) t True (· = length) →
        Decides (Decoder.byte >>= readPushLength offset) (b :: t) True (· = length) := by
      intro b t hb
      have hbind := (Wire.decides_byte b).bind (f := readPushLength offset) fun x hx => hx ▸ hb
      exact hbind.congr (and_self_iff) fun _ => id
    cases hspells with
    | direct h =>
      refine hmark _ [] ?_
      rw [readPushLength]
      by_cases hzero : length = 0
      · subst hzero
        exact .pure rfl
      · have hb := toNat_ofNat_of_le h
        have hdirect : Opcode.isDirectPush (UInt8.ofNat length) = true :=
          isDirectPush_iff.2 ⟨by omega, by omega⟩
        have hne : UInt8.ofNat length ≠ Opcode.push0.byte := by
          intro heq
          rw [heq] at hb
          exact hzero hb.symm
        rw [if_neg hne, if_pos hdirect]
        exact .pure hb
    | counted op width hop h =>
      refine hmark _ _ ?_
      have hread := Wire.decides_number h
      obtain ⟨rfl, rfl⟩ | ⟨rfl, rfl⟩ | ⟨rfl, rfl⟩ := mem_countedPushes_iff.1 hop <;> exact hread

/-- Pushed bytes are read from all of their pushes. -/
theorem reads_readData : Reads readData SpellsData := by
  have htake : ∀ offset length, Reads (if Limits.maxPushLength < length then
        Decoder.malformed offset (.pushLength length Limits.maxPushLength)
      else Decoder.take length) fun bs t =>
        length ≤ Limits.maxPushLength ∧ bs.length = length ∧ t = bs := by
    intro offset length
    split
    · next hlong => exact .fail (fun c => ⟨_, c, rfl⟩) fun bs t h => absurd h.1 (Nat.not_le.2 hlong)
    · next hfits =>
      exact (Wire.reads_take length).congr fun bs t =>
        (and_iff_right (Nat.le_of_not_lt hfits)).symm
  rw [readData]
  refine Reads.offset_bind fun offset => ?_
  rw [← bind_assoc]
  refine ((reads_pushLength offset).bind (htake offset)).congr fun bs push => ?_
  constructor
  · rintro ⟨_, head, _, hhead, ⟨hlength, rfl, rfl⟩, rfl⟩
    exact .mk head hlength hhead
  · rintro ⟨head, hlength, hhead⟩
    exact ⟨_, head, bs, hhead, ⟨hlength, rfl, rfl⟩, rfl⟩

/-! ## Numbers -/

/-- No byte that opens a push of bytes is an instruction of its own that pushes a number. -/
theorem isDataPush_cases {b : UInt8} (h : isDataPush b = true) :
    b ≠ Opcode.push0.byte ∧ b ≠ Opcode.pushM1.byte ∧ ¬ (0x51 ≤ b ∧ b ≤ 0x60) := by
  have hbyte : 1 ≤ b.toNat ∧ b.toNat ≤ 0x4e := by
    simp only [isDataPush, Bool.or_eq_true, beq_iff_eq, isDirectPush_iff, Opcode.maxDirectPush] at h
    obtain ((h | rfl) | rfl) | rfl := h
    · omega
    · decide
    · decide
    · decide
  simp only [ne_eq, UInt8.le_iff_toNat_le, ← UInt8.toNat_inj, Opcode.byte, UInt8.reduceToNat]
  omega

/-- What is read of a number depends on the byte that comes next. -/
theorem readSigned_cons (offset : Nat) (b : UInt8) (back : Bytes) :
    readSigned ⟨offset, b :: back⟩ =
      if b = Opcode.push0.byte then .ok [] ⟨offset + 1, back⟩
      else if b = Opcode.pushM1.byte then .ok (Bytes.ofInt (-1)) ⟨offset + 1, back⟩
      else if 0x51 ≤ b ∧ b ≤ 0x60 then .ok (Bytes.ofInt (b.toNat - 0x50)) ⟨offset + 1, back⟩
      else if isDataPush b = true then readData ⟨offset, b :: back⟩
      else .error (.malformed offset (.integerPush b)) ⟨offset, b :: back⟩ := by
  show (if b = Opcode.push0.byte then _ else if b = Opcode.pushM1.byte then _
    else if 0x51 ≤ b ∧ b ≤ 0x60 then _ else if isDataPush b = true then _ else _ :
      Decoder Bytes) _ = _
  split
  · rfl
  split
  · rfl
  split
  · rfl
  split <;> rfl

/-- A push of bytes opens with a byte that says so, but for the one that pushes nothing. -/
theorem SpellsData.cases {bs push : Bytes} (h : SpellsData bs push) :
    bs = [] ∧ push = [Opcode.push0.byte] ∨ ∃ b back, push = b :: back ∧ isDataPush b = true := by
  obtain ⟨head, -, hhead⟩ := h
  cases hhead with
  | direct h =>
    by_cases hzero : bs.length = 0
    · obtain rfl := List.length_eq_zero_iff.1 hzero
      exact .inl ⟨rfl, rfl⟩
    · have hb := toNat_ofNat_of_le h
      have hdirect : Opcode.isDirectPush (UInt8.ofNat bs.length) = true :=
        isDirectPush_iff.2 ⟨by omega, by omega⟩
      refine .inr ⟨_, bs, rfl, ?_⟩
      rw [isDataPush, hdirect]
      rfl
  | counted op width hop h =>
    refine .inr ⟨_, _, rfl, ?_⟩
    obtain ⟨rfl, -⟩ | ⟨rfl, -⟩ | ⟨rfl, -⟩ := mem_countedPushes_iff.1 hop <;> rfl

/-- The instructions for small numbers are in the order of the numbers. -/
theorem toNat_byte_small (less : Fin 16) :
    ((Opcode.pushSmall less).byte.toNat : Int) - 0x50 = less.val + 1 := by
  revert less
  decide

/-- A pushed number is read from all pushes of the bytes that spell it, and from the instructions
without an operand that push it. -/
theorem reads_readSigned : Reads readSigned SpellsSigned where
  sound {c c' x} hd := by
    obtain ⟨offset, rest⟩ := c
    cases rest with
    | nil => cases hd
    | cons b back =>
      rw [readSigned_cons] at hd
      split at hd
      · next hb =>
        cases hd
        exact ⟨[b], rfl, hb ▸ .data spellsData_nil⟩
      split at hd
      · next hb =>
        cases hd
        exact ⟨[b], rfl, hb ▸ .minusOne⟩
      split at hd
      · next hb =>
        cases hd
        simp only [UInt8.le_iff_toNat_le, UInt8.reduceToNat] at hb
        -- The byte tells which of the sixteen small numbers it pushes.
        have hbyte : b = (Opcode.pushSmall ⟨b.toNat - 0x51, by omega⟩).byte := by
          rw [Opcode.byte, Nat.add_sub_cancel' hb.1, UInt8.ofNat_toNat]
        have hspells := SpellsSigned.small ⟨b.toNat - 0x51, by omega⟩
        rw [← toNat_byte_small, ← hbyte] at hspells
        exact ⟨[b], rfl, hspells⟩
      split at hd
      · obtain ⟨push, hrest, hspells⟩ := reads_readData.sound hd
        exact ⟨push, hrest, .data hspells⟩
      · cases hd
  complete {x push} hspells := by
    cases hspells with
    | minusOne => exact fun offset rest => ⟨fun _ => ⟨_, rfl, rfl⟩, fun h => absurd trivial h⟩
    | small less =>
      -- No other case of the reader takes one of these bytes before.
      have hother : ∀ k : Fin 16, (Opcode.pushSmall k).byte ≠ Opcode.push0.byte ∧
          (Opcode.pushSmall k).byte ≠ Opcode.pushM1.byte ∧
          (0x51 ≤ (Opcode.pushSmall k).byte ∧ (Opcode.pushSmall k).byte ≤ 0x60) := by decide
      obtain ⟨hzero, hminus, hsmall⟩ := hother less
      refine fun offset rest => ⟨fun _ => ⟨_, rfl, ?_⟩, fun h => absurd trivial h⟩
      rw [List.singleton_append, readSigned_cons, if_neg hzero, if_neg hminus, if_pos hsmall,
        toNat_byte_small]
      rfl
    | data h =>
      obtain ⟨rfl, rfl⟩ | ⟨b, back, rfl, hb⟩ := h.cases
      · exact fun offset rest => ⟨fun _ => ⟨_, rfl, rfl⟩, fun h => absurd trivial h⟩
      · obtain ⟨hzero, hminus, hsmall⟩ := isDataPush_cases hb
        intro offset rest
        rw [List.cons_append, readSigned_cons, if_neg hzero, if_neg hminus, if_neg hsmall,
          if_pos hb]
        exact reads_readData.complete h offset rest

/-- A number is read from the pushes of every two's complement of it. -/
theorem reads_readInteger :
    Reads readInteger fun n push => ∃ signed, SpellsSigned signed push ∧ n = Bytes.toInt signed :=
  reads_readSigned.map

/-! ## Texts and calls -/

/-- Bytes are read as a text if they are its UTF-8 form. -/
theorem judges_toText {fault : Wire.Fault} (offset : Nat) (bs : Bytes) :
    Judges (match Bytes.toText? bs with
      | some s => pure s
      | none => Decoder.malformed offset fault) fun s => Bytes.ofText s = bs := by
  split
  · next s hs =>
    refine .pure fun s' => ?_
    rw [← Bytes.toText?_eq_some_iff, hs, Option.some.injEq]
    exact eq_comm
  · next hnone =>
    refine .fail (fun c => ⟨_, c, rfl⟩) fun s h => ?_
    cases (Bytes.toText?_eq_some_iff.2 h).symm.trans hnone

/-- A text is read from the pushes of its bytes. -/
theorem reads_readText : Reads readText fun s push => SpellsData (Bytes.ofText s) push := by
  rw [readText]
  refine Reads.offset_bind fun offset => ?_
  refine (reads_readData.bind_judges (judges_toText offset)).congr fun s push => ?_
  simp only [exists_eq_right']

/-- The name of a service is read after one byte for its length. -/
theorem reads_serviceName (offset : Nat) :
    Reads (do
      let length ← Decoder.byte
      match Bytes.toText? (← Decoder.take length.toNat) with
      | some s => return s
      | none => Decoder.malformed offset .serviceName) fun name bs =>
        SpellsCall name (Opcode.sysCall.byte :: bs) := by
  refine (Wire.reads_byte.bind fun length => (Wire.reads_take length.toNat).bind_judges
    (judges_toText offset)).congr fun name bs => ?_
  constructor
  · rintro ⟨length, _, _, rfl, ⟨_, ⟨hlength, rfl⟩, rfl⟩, rfl⟩
    have hspells := SpellsCall.mk (hlength ▸ length.toNat_lt)
    rw [hlength, UInt8.ofNat_toNat] at hspells
    exact hspells
  · rintro ⟨hlength⟩
    have hback : (UInt8.ofNat (Bytes.ofText name).length).toNat = (Bytes.ofText name).length := by
      rw [UInt8.toNat_ofNat', Nat.mod_eq_of_lt hlength]
    exact ⟨UInt8.ofNat (Bytes.ofText name).length, _, _, rfl, ⟨_, ⟨hback.symm, rfl⟩, rfl⟩, rfl⟩

/-- A call is read from the name of its service, of whatever length. -/
theorem reads_readSysCall : Reads readSysCall SpellsCall := by
  rw [readSysCall]
  refine Reads.offset_bind fun offset => ?_
  refine (Wire.reads_byte.bind (H := fun opcode name t => SpellsCall name (opcode :: t))
    fun opcode => ?_).congr fun name bs => ?_
  · split
    · next hne =>
      refine .fail (fun c => ⟨_, c, rfl⟩) ?_
      rintro name t ⟨-⟩
      exact hne rfl
    · next heq =>
      obtain rfl : opcode = Opcode.sysCall.byte := Decidable.of_not_not heq
      exact reads_serviceName offset
  · constructor
    · rintro ⟨opcode, _, t, rfl, hcall, rfl⟩
      exact hcall
    · rintro ⟨hlength⟩
      exact ⟨Opcode.sysCall.byte, _, _, rfl, .mk hlength, rfl⟩

/-! ## What is written -/

/-- The head that is written says the number, if four bytes hold it. -/
theorem spellsLength_pushHead {length : Nat} (h : length < 2 ^ (32 : Nat)) :
    SpellsLength length (pushHead length) := by
  rw [pushHead]
  split
  · next hdirect => exact .direct hdirect
  split
  · exact .counted .pushData1 1 (by decide) (by omega)
  split
  · exact .counted .pushData2 2 (by decide) (by omega)
  · exact .counted .pushData4 4 (by decide) (by omega)

/-- It has as many bytes as the number needs. -/
theorem length_pushHead (length : Nat) :
    (pushHead length).length =
      if length ≤ Opcode.maxDirectPush then 1 else if length ≤ 0xff then 2
      else if length ≤ 0xffff then 3 else 5 := by
  rw [pushHead]
  split
  · rfl
  split
  · rfl
  split <;> rfl

/-- There is no push without a head. -/
theorem length_pushHead_pos (length : Nat) : 0 < (pushHead length).length := by
  rw [length_pushHead]
  split_ifs <;> decide

/-- More bytes need no shorter head. -/
theorem length_pushHead_mono {m n : Nat} (h : m ≤ n) :
    (pushHead m).length ≤ (pushHead n).length := by
  rw [length_pushHead, length_pushHead, Opcode.maxDirectPush]
  split_ifs <;> omega

/-- The head that is written is the shortest. -/
theorem SpellsLength.length_pushHead_le {length : Nat} {head : Bytes}
    (h : SpellsLength length head) : (pushHead length).length ≤ head.length := by
  cases h with
  | direct h =>
    have hhead : pushHead length = [UInt8.ofNat length] := if_pos h
    exact Nat.le_of_eq (congrArg List.length hhead)
  | counted op width hop h =>
    rw [length_pushHead, List.length_cons, Bytes.length_littleEndian]
    obtain ⟨-, rfl⟩ | ⟨-, rfl⟩ | ⟨-, rfl⟩ := mem_countedPushes_iff.1 hop <;> split_ifs <;> omega

/-- What is written for bytes pushes them. -/
theorem spellsData_rawPush {bs : Bytes} (h : bs.length ≤ Limits.maxPushLength) :
    SpellsData bs (rawPush bs) := by
  have hmax : Limits.maxPushLength < 2 ^ (32 : Nat) := by decide
  exact .mk _ h (spellsLength_pushHead (Nat.lt_of_le_of_lt h hmax))

/-- No other push of the bytes is shorter. -/
theorem SpellsData.length_rawPush_le {bs push : Bytes} (h : SpellsData bs push) :
    (rawPush bs).length ≤ push.length := by
  obtain ⟨head, -, hhead⟩ := h
  have := hhead.length_pushHead_le
  rw [rawPush, List.length_append, List.length_append]
  omega

/-- Pushes are of no more bytes than one instruction may push. -/
theorem SpellsData.length_le {bs push : Bytes} (h : SpellsData bs push) :
    bs.length ≤ Limits.maxPushLength := by
  obtain ⟨-, hlength, -⟩ := h
  exact hlength

/-- What is written for a number pushes its two's complement. -/
theorem spellsSigned_pushInteger {n : Int} (h : (Bytes.ofInt n).length ≤ Limits.maxPushLength) :
    SpellsSigned (Bytes.ofInt n) (pushInteger n) := by
  obtain ⟨rfl, hpush⟩ | ⟨rfl, hpush⟩ | ⟨less, rfl, hpush⟩ | hpush := pushInteger_cases n
  · exact hpush ▸ .minusOne
  · exact hpush ▸ .data spellsData_nil
  · exact hpush ▸ .small less
  · exact hpush ▸ .data (spellsData_rawPush h)

/-- A push of bytes is not empty. -/
theorem length_rawPush_pos (bs : Bytes) : 0 < (rawPush bs).length := by
  have := length_pushHead_pos bs.length
  rw [rawPush, List.length_append]
  omega

/-- Nor is a push of a number. -/
theorem length_pushInteger_pos (n : Int) : 0 < (pushInteger n).length := by
  obtain ⟨-, hpush⟩ | ⟨-, hpush⟩ | ⟨less, -, hpush⟩ | hpush := pushInteger_cases n
  · exact hpush ▸ Nat.one_pos
  · exact hpush ▸ Nat.one_pos
  · exact hpush ▸ Nat.one_pos
  · exact hpush ▸ length_rawPush_pos _

/-- No number takes more bytes than a push of its two's complement does. -/
theorem length_pushInteger_le_rawPush (n : Int) :
    (pushInteger n).length ≤ (rawPush (Bytes.ofInt n)).length := by
  have hpos := length_rawPush_pos (Bytes.ofInt n)
  obtain ⟨-, hpush⟩ | ⟨-, hpush⟩ | ⟨less, -, hpush⟩ | hpush := pushInteger_cases n
  · exact hpush ▸ hpos
  · exact hpush ▸ hpos
  · exact hpush ▸ hpos
  · exact Nat.le_of_eq (congrArg _ hpush)

/-- The push of a number that is written is not longer than any other. -/
theorem SpellsSigned.length_pushInteger_le {signed push : Bytes} (h : SpellsSigned signed push) :
    (pushInteger (Bytes.toInt signed)).length ≤ push.length := by
  cases h with
  | minusOne =>
    have hn : Bytes.toInt (Bytes.ofInt (-1)) = -1 := Bytes.toInt_ofInt (-1)
    exact Nat.le_of_eq (congrArg (fun n => (pushInteger n).length) hn)
  | small less =>
    rw [Bytes.toInt_ofInt]
    revert less
    decide
  | data h =>
    have hwritten := length_pushInteger_le_rawPush (Bytes.toInt signed)
    have hfewest := (Bytes.ofInt_shortest (Bytes.toInt signed)).2 signed rfl
    have hhead := length_pushHead_mono hfewest
    have hshortest := h.length_rawPush_le
    rw [rawPush, List.length_append] at hwritten hshortest
    omega

/-- A push is not empty. -/
theorem SpellsSigned.length_pos {signed push : Bytes} (h : SpellsSigned signed push) :
    0 < push.length := by
  cases h with
  | minusOne => exact Nat.one_pos
  | small less => exact Nat.one_pos
  | data h =>
    obtain ⟨-, rfl⟩ | ⟨b, back, rfl, -⟩ := h.cases
    · exact Nat.one_pos
    · exact Nat.succ_pos _

end LedgerClient.Script
