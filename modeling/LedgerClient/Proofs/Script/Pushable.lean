import LedgerClient.Proofs.Wire.Emission
import LedgerClient.Script.Assembly

/-!
# Arguments that can be pushed

An argument is pushed unless it carries too many bytes at some depth: `Parameter.Within` says what
stands in an argument, and `Parameter.Pushable` that all of it is short enough. A call is assembled
exactly if all of its arguments are pushable (`exists_appCall_iff`), and its script is not empty
(`appCall_ne_nil`).
-/

namespace LedgerClient

namespace Script

open Wire (Emission)

namespace Parameter

/-- The bytes that an argument carries as they are, as many as its author likes. -/
def payload : Parameter → Bytes
  | .signature bs => bs
  | .byteArray bs => bs
  | .publicKey bs => bs
  | .string text => Bytes.ofText text
  | _ => []

/-- An argument is another one, or stands in it at some depth. -/
inductive Within (q : Parameter) : Parameter → Prop
  | self : Within q q
  | item {p items} : p ∈ items → Within q p → Within q (.array items)

section Within

variable {P : Parameter → Prop}

/-- What holds throughout an array holds of the array and throughout its items. -/
theorem forall_within_array_iff {items : List Parameter} :
    (∀ q, Within q (.array items) → P q) ↔
      P (.array items) ∧ ∀ p ∈ items, ∀ q, Within q p → P q := by
  constructor
  · exact fun h => ⟨h _ .self, fun p hp q hq => h q (.item hp hq)⟩
  · rintro ⟨hself, hitems⟩ q (_ | ⟨hp, hq⟩)
    · exact hself
    · exact hitems _ hp q hq

/-- In what is no array stands nothing else. -/
theorem forall_within_iff {p : Parameter} (h : ∀ items, p ≠ .array items) :
    (∀ q, Within q p → P q) ↔ P p := by
  constructor
  · exact fun hp => hp p .self
  · rintro hp q (_ | _)
    · exact hp
    · exact absurd rfl (h _)

end Within

/-- Nothing in the argument carries more bytes than one instruction pushes. -/
def Pushable (p : Parameter) : Prop :=
  ∀ q : Parameter, q.Within p → q.payload.length ≤ Limits.maxPushLength

/-- An array is pushable if its items are. -/
theorem pushable_array_iff {items : List Parameter} :
    (Parameter.array items).Pushable ↔ ∀ p ∈ items, p.Pushable :=
  forall_within_array_iff.trans (and_iff_right (Nat.zero_le _))

/-- What is no array is pushable if its own bytes are few enough. -/
theorem pushable_iff {p : Parameter} (h : ∀ items, p ≠ .array items) :
    p.Pushable ↔ p.payload.length ≤ Limits.maxPushLength :=
  forall_within_iff h

end Parameter

open Parameter

/-- Bytes are pushed if they are few enough. -/
theorem pushData_eq_ok_iff {bs push : Bytes} :
    pushData bs = .ok push ↔ bs.length ≤ Limits.maxPushLength ∧ rawPush bs = push := by
  rw [pushData]
  split
  · constructor
    · rintro ⟨⟩
    · rintro ⟨hlength, -⟩
      omega
  · exact ⟨fun h => ⟨by omega, Except.ok.inj h⟩, fun h => congrArg _ h.2⟩

/-- Whether a push of bytes fails depends on their number only. -/
theorem pushData_failure_eq_none_iff {bs : Bytes} :
    (Emission.ofExcept (pushData bs)).failure = none ↔ bs.length ≤ Limits.maxPushLength := by
  rw [pushData]
  split
  · exact iff_of_false nofun (by omega)
  · exact iff_of_true rfl (by omega)

/-- A push of few bytes is written in the shortest form. -/
theorem pushData_bytes {bs : Bytes} (h : bs.length ≤ Limits.maxPushLength) :
    (Emission.ofExcept (pushData bs)).bytes = rawPush bs := by
  rw [pushData_eq_ok_iff.2 ⟨h, rfl⟩]
  rfl

/-- Whether a service is called depends on the length of its name only. -/
theorem sysCall_eq (name : String) : sysCall name =
    if (Bytes.ofText name).length = 0 ∨ maxServiceName < (Bytes.ofText name).length then
      .error (.serviceNameLength (Bytes.ofText name).length)
    else .ok (Opcode.sysCall.byte :: UInt8.ofNat (Bytes.ofText name).length ::
      Bytes.ofText name) := by
  simp only [sysCall, Bool.or_eq_true, decide_eq_true_eq, List.isEmpty_iff_length_eq_zero]

/-- A number is pushed by an instruction of its own or as its two's complement. -/
theorem pushInteger_cases (n : Int) :
    n = -1 ∧ pushInteger n = [Opcode.pushM1.byte] ∨
    n = 0 ∧ pushInteger n = [Opcode.push0.byte] ∨
    (∃ less : Fin 16, n = less.val + 1 ∧ pushInteger n = [(Opcode.pushSmall less).byte]) ∨
    pushInteger n = rawPush (Bytes.ofInt n) := by
  rw [pushInteger]
  split
  · next hn => exact .inl ⟨hn, rfl⟩
  split
  · next hn => exact .inr (.inl ⟨hn, rfl⟩)
  split
  · next op hsmall =>
    refine .inr (.inr (.inl ?_))
    rw [Opcode.small?] at hsmall
    split at hsmall
    · split at hsmall
      · cases hsmall
      · cases hsmall
        exact ⟨_, by dsimp only; omega, rfl⟩
    · cases hsmall
  · exact .inr (.inr (.inr rfl))

-- One theorem for each of the two functions, by the recursion that they share: an array is pushed
-- by `pushAllThen`, and `pushAllThen` pushes each argument.
mutual

/-- Exactly the pushable arguments are pushed without failure. -/
theorem pushParameter_failure_eq_none_iff : (p : Parameter) →
    ((pushParameter p).failure = none ↔ p.Pushable)
  | .signature _ | .byteArray _ | .publicKey _ => by
    rw [pushParameter, pushData_failure_eq_none_iff, pushable_iff, payload]
    nofun
  | .string _ => by
    rw [pushParameter, pushText, pushData_failure_eq_none_iff, pushable_iff, payload]
    nofun
  | .boolean _ | .integer _ => by
    rw [pushParameter, pushable_iff]
    · exact iff_of_true rfl (Nat.zero_le _)
    · nofun
  | .hash160 h | .hash256 h => by
    rw [pushParameter, pushData_failure_eq_none_iff, h.length_bytes, pushable_iff]
    · exact iff_of_true (by decide) (Nat.zero_le _)
    · nofun
  | .array items => by
    rw [pushParameter, pushAllThen_failure_eq_none_iff items, pushable_array_iff]
    exact and_iff_left rfl

/-- Arguments are pushed without failure if each is pushable and what comes after them does not
fail. -/
theorem pushAllThen_failure_eq_none_iff : (ps : List Parameter) → {next : Emission Error} →
    ((pushAllThen ps next).failure = none ↔ (∀ p ∈ ps, p.Pushable) ∧ next.failure = none)
  | [], _ => (and_iff_right fun _ h => nomatch h).symm
  | p :: ps, next => by
    rw [pushAllThen, pushAllThen_failure_eq_none_iff ps, Emission.andThen_failure_eq_none_iff,
      pushParameter_failure_eq_none_iff p, List.forall_mem_cons, ← and_assoc,
      and_comm (a := p.Pushable)]

end

/-- What comes after arguments stays where they are pushed without failure. -/
theorem length_le_length_pushAllThen {ps : List Parameter} {next : Emission Error}
    (h : (pushAllThen ps next).failure = none) :
    next.bytes.length ≤ (pushAllThen ps next).bytes.length := by
  induction ps generalizing next with
  | nil => exact Nat.le_refl _
  | cons p ps ih =>
    rw [pushAllThen] at h ⊢
    have hp := (Emission.andThen_failure_eq_none_iff.1
      ((pushAllThen_failure_eq_none_iff ps).1 h).2).1
    have hle := ih h
    rw [Emission.andThen_bytes hp, List.length_append] at hle
    omega

/-- A call is assembled exactly if its arguments are pushable. -/
theorem exists_appCall_iff {contract : Ledger.Hash160} {arguments : List Parameter} :
    (∃ script, (appCall contract arguments).toExcept = .ok script) ↔
      ∀ p ∈ arguments, p.Pushable := by
  rw [appCall]
  constructor
  · rintro ⟨script, hscript⟩
    have hnone := (Emission.toExcept_eq_ok_iff.1 hscript).1
    exact ((pushAllThen_failure_eq_none_iff arguments).1 hnone).1
  · intro h
    exact ⟨_, Emission.toExcept_eq_ok_iff.2
      ⟨(pushAllThen_failure_eq_none_iff arguments).2 ⟨h, rfl⟩, rfl⟩⟩

/-- The script of a call is not empty: it ends with the call itself. -/
theorem appCall_ne_nil {contract : Ledger.Hash160} {arguments : List Parameter} {script : Bytes}
    (h : (appCall contract arguments).toExcept = .ok script) : script ≠ [] := by
  rw [appCall] at h
  obtain ⟨hnone, rfl⟩ := Emission.toExcept_eq_ok_iff.1 h
  refine fun hnil => absurd (length_le_length_pushAllThen hnone) ?_
  rw [hnil]
  exact Nat.not_succ_le_zero _

end Script

end LedgerClient
