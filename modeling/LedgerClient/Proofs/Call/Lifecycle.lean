import LedgerClient.Call.Prepared
import LedgerClient.Proofs.Call.Building
import LedgerClient.Proofs.Script.Execution
import LedgerClient.Rpc.Rehearsal

/-!
# The life of a call

A call that was built can be signed and sent in any order and any number of times (`Prepared.Run`).
It only ever is in one of two states: as it was built, or with the one witness of its account
(`Run.unsigned_or_signed`). The part that is signed is the same in both, so that the name of the
transaction stays right, although it is not computed again after the call was built.

What a node is asked in the course of a run is read off a node that keeps notes (`Node.noting`).
-/

namespace LedgerClient

/-! ## Keeping notes -/

/-- The node, with notes of the questions that it is asked. -/
def Rpc.Node.noting {σ : Type} (node : Node σ) : Node (σ × List Question) where
  relay hex := fun (s, asked) =>
    let (answer, s) := node.relay hex s
    (answer, s, asked ++ [.relay hex])
  blockCount := fun (s, asked) =>
    let (answer, s) := node.blockCount s
    (answer, s, asked ++ [.blockCount])
  applicationLog transaction := fun (s, asked) =>
    let (answer, s) := node.applicationLog transaction s
    (answer, s, asked ++ [.applicationLog transaction])
  wait microseconds := fun (s, asked) => (node.wait microseconds s, asked)

namespace Call

open Ledger (Hash256 Witness)
open Rpc (Node Question)
open Script (Machine.fetch)
open Wallet (Account)

/-! ## Signing -/

/-- An account makes a witness of a signature that can be pushed. -/
theorem witness_eq_ok_iff {a : Account} {message : Bytes} {w : Witness} :
    a.witness message = .ok w ↔ ∃ signature, a.sign message = .ok signature ∧
      ∃ push, Script.pushData signature = .ok push ∧
        Witness.ofScripts push a.signer.verification = w := by
  rw [Account.witness, Except.bind_eq_ok_iff]
  refine exists_congr fun signature => and_congr_right fun _ => ?_
  rw [Except.bind_eq_ok_iff]
  refine exists_congr fun push => ?_
  rw [Except.mapError_eq_ok_iff]
  exact and_congr_right fun _ => ⟨Except.ok.inj, congrArg _⟩

/-- The first witness of a transaction has to name its account. -/
theorem insert_first_eq_ok_iff {w : Witness} {ws : List Witness} :
    Witness.insert [] [w] = .ok ws ↔ w.scriptHash ≠ none ∧ [w] = ws := by
  have hsort : Witness.sort ([] ++ [w]) = [w] := List.mergeSort_singleton w
  rw [Witness.insert, hsort, List.any_cons, List.any_nil, Bool.or_false]
  cases w.scriptHash with
  | none =>
    constructor
    · rintro ⟨⟩
    · rintro ⟨hne, -⟩
      exact absurd rfl hne
  | some account =>
    constructor
    · rintro ⟨⟩
      exact ⟨Option.some_ne_none account, rfl⟩
    · rintro ⟨-, rfl⟩
      rfl

namespace Prepared

/-- A call as it is built: it is not signed, and it bears the name of its transaction. -/
structure Fresh (p : Prepared) : Prop where
  signed_eq : p.signed = false
  witnesses_eq : p.transaction.witnesses = []
  id_eq : p.id = p.transaction.id

/-- A call that was built is fresh, and its account is that of the plan. -/
theorem fresh_of_build {plan : Plan} {p : Prepared} (h : plan.build = .ok p) :
    p.Fresh ∧ plan.account = some p.account := by
  obtain ⟨r, rfl⟩ := build_eq_ok_iff.1 h
  exact ⟨⟨rfl, rfl, rfl⟩, r.account_eq⟩

/-- The call with one witness. -/
def endorsed (p : Prepared) (w : Witness) : Prepared :=
  { p with transaction := { p.transaction with witnesses := [w] }, signed := true }

/-- A witness that the account of a call makes of a signature of the part that is signed. -/
structure Endorses (w : Witness) (p : Prepared) : Prop where
  /-- It pushes the signature and does nothing else. -/
  pushes : ∃ signature, p.account.sign p.transaction.signedPart = .ok signature ∧
    Machine.fetch w.invocation = some (.push signature, [])
  verification_eq : w.verification = p.account.signer.verification
  scriptHash_eq : w.scriptHash = some p.account.scriptHash

/-- A fresh call is signed with a signature that can be pushed, if there is a script to check it. -/
theorem Fresh.sign_eq_ok_iff {p p' : Prepared} (hp : p.Fresh) :
    p.sign = .ok p' ↔ ∃ signature, p.account.sign p.transaction.signedPart = .ok signature ∧
      ∃ push, Script.pushData signature = .ok push ∧ p.account.signer.verification ≠ [] ∧
        p.endorsed (Witness.ofScripts push p.account.signer.verification) = p' := by
  have hhash (push : Bytes) : (Witness.ofScripts push
      p.account.signer.verification).scriptHash ≠ none ↔ p.account.signer.verification ≠ [] := by
    rw [Witness.ofScripts]
    cases p.account.signer.verification <;> simp
  rw [sign, hp.signed_eq, if_neg Bool.false_ne_true, Except.bind_eq_ok_iff]
  simp only [Except.bind_eq_ok_iff, Except.mapError_eq_ok_iff, witness_eq_ok_iff,
    Ledger.Invocation.addWitnesses_eq_ok_iff, hp.witnesses_eq, insert_first_eq_ok_iff]
  constructor
  · rintro ⟨_, ⟨signature, hsign, push, hpush, rfl⟩, _, ⟨_, ⟨hne, rfl⟩, rfl⟩, h⟩
    exact ⟨signature, hsign, push, hpush, (hhash _).1 hne, Except.ok.inj h⟩
  · rintro ⟨signature, hsign, push, hpush, hne, rfl⟩
    exact ⟨_, ⟨signature, hsign, push, hpush, rfl⟩, _, ⟨_, ⟨(hhash _).2 hne, rfl⟩, rfl⟩, rfl⟩

/-- A fresh call can be signed exactly if its account's signature is short enough to be pushed and
there is a script to check it. -/
theorem Fresh.isOk_sign_iff {p : Prepared} (hp : p.Fresh) :
    (∃ p', p.sign = .ok p') ↔ ∃ signature,
      p.account.sign p.transaction.signedPart = .ok signature ∧
        signature.length ≤ Limits.maxPushLength ∧ p.account.signer.verification ≠ [] := by
  constructor
  · rintro ⟨p', h⟩
    obtain ⟨signature, hsign, push, hpush, hne, -⟩ := hp.sign_eq_ok_iff.1 h
    exact ⟨signature, hsign, (Script.pushData_eq_ok_iff.1 hpush).1, hne⟩
  · rintro ⟨signature, hsign, hlength, hne⟩
    have hpush := Script.pushData_eq_ok_iff.2 ⟨hlength, rfl⟩
    exact ⟨_, hp.sign_eq_ok_iff.2 ⟨signature, hsign, _, hpush, hne, rfl⟩⟩

/-- Signing a fresh call puts a witness of its account in it. -/
theorem Fresh.of_sign {p p' : Prepared} (hp : p.Fresh) (h : p.sign = .ok p') :
    ∃ w, Endorses w p ∧ p.endorsed w = p' := by
  obtain ⟨signature, hsign, push, hpush, hne, rfl⟩ := hp.sign_eq_ok_iff.1 h
  have hfetch := Script.fetch_of_pushData hpush []
  rw [List.append_nil] at hfetch
  exact ⟨_, ⟨⟨signature, hsign, hfetch⟩, rfl, if_neg fun hempty => hne (List.isEmpty_iff.1 hempty)⟩,
    rfl⟩

/-- A call with a witness counts as signed. -/
theorem signed_endorsed (p : Prepared) (w : Witness) : (p.endorsed w).signed = true := rfl

/-- Signing it again changes nothing. -/
theorem sign_endorsed (p : Prepared) (w : Witness) : (p.endorsed w).sign = .ok (p.endorsed w) := rfl

/-! ## Sending -/

section Sending

variable {σ : Type} (node : Node σ) (s : σ)

/-- A fresh call is not sent, and the node is not asked. -/
theorem Fresh.send_eq {p : Prepared} (hp : p.Fresh) : p.send node s = (.error .notSigned, s) := by
  rw [send, hp.signed_eq, if_neg Bool.false_ne_true]

/-- What a signed call is sent as: the part that is signed, the number of witnesses, and the
witness. -/
def sentText (p : Prepared) (w : Witness) : String :=
  Hex.encode (p.transaction.signedPart ++ 1 :: w.encode)

/-- The text of a call with one witness is the part that is signed, the number of witnesses and the
witness. -/
theorem rawText_endorsed (p : Prepared) (w : Witness) : (p.endorsed w).rawText = p.sentText w := by
  have hwitness : Wire.Counted.writeList Witness.encode [w] = 1 :: w.encode := by
    rw [Wire.Counted.writeList, List.flatMap_singleton]
    rfl
  show Hex.encode (p.transaction.signedPart ++ Wire.Counted.writeList Witness.encode [w]) = _
  rw [hwitness, sentText]

/-- Sending a signed call relays it once, and leaves the node as that does. -/
theorem send_endorsed_state (p : Prepared) (w : Witness) :
    ((p.endorsed w).send node s).2 = (node.relay (p.sentText w) s).2 := by
  rw [send, if_pos (signed_endorsed p w), rawText_endorsed]
  obtain ⟨answer, s'⟩ := node.relay (p.sentText w) s
  obtain _ | _ | _ := answer <;> rfl

/-- Sending a signed call gives its name exactly if the node accepts it. -/
theorem send_endorsed_eq_ok_iff (p : Prepared) (w : Witness) (id : Hash256) :
    ((p.endorsed w).send node s).1 = .ok id ↔
      (node.relay (p.sentText w) s).1 = .ok true ∧ id = p.id := by
  rw [send, if_pos (signed_endorsed p w), rawText_endorsed]
  obtain ⟨answer, s'⟩ := node.relay (p.sentText w) s
  obtain failure | _ | _ := answer
  · exact iff_of_false nofun fun h => nomatch h.1
  · exact iff_of_false nofun fun h => nomatch h.1
  · exact ⟨fun h => ⟨rfl, (Except.ok.inj h).symm⟩, fun h => congrArg _ h.2.symm⟩

end Sending

/-! ## Runs -/

/-- What is done with a call. -/
inductive Action where
  | sign
  | send
  deriving DecidableEq

/-- How often a call is sent once it is signed. -/
def sendsOnceSigned : List Action → Nat
  | [] => 0
  | .sign :: actions => actions.count .send
  | .send :: actions => sendsOnceSigned actions

/-- Of further actions all that send count if the call was signed before them. -/
theorem sendsOnceSigned_append (actions more : List Action) :
    sendsOnceSigned (actions ++ more) =
      if .sign ∈ actions then sendsOnceSigned actions + more.count .send
      else sendsOnceSigned more := by
  induction actions with
  | nil => rfl
  | cons action actions ih =>
    cases action with
    | sign =>
      rw [if_pos (List.mem_cons_self ..)]
      exact List.count_append ..
    | send =>
      rw [List.cons_append, sendsOnceSigned, ih, sendsOnceSigned]
      simp only [List.mem_cons, reduceCtorEq, false_or]

/-- A call and the state of a node, with the notes of what it was asked, after actions in order. In
between, the state may change in any way. A signature that fails uses up the call, so that nothing
follows it. -/
inductive Run {σ : Type} (node : Node σ) (p₀ : Prepared) (s₀ : σ) :
    List Action → Prepared → σ × List Question → Prop
  | start : Run node p₀ s₀ [] p₀ (s₀, [])
  | sign {actions p p' s} : Run node p₀ s₀ actions p s → p.sign = .ok p' →
    Run node p₀ s₀ (actions ++ [.sign]) p' s
  | send {actions p s} : Run node p₀ s₀ actions p s →
    Run node p₀ s₀ (actions ++ [.send]) p (p.send node.noting s).2
  | elapse {actions p s} (s' : σ) : Run node p₀ s₀ actions p s → Run node p₀ s₀ actions p (s', s.2)

variable {σ : Type} {node : Node σ} {p₀ p : Prepared} {s₀ : σ} {actions : List Action}
  {s : σ × List Question}

/-- A call is as it was, and nobody was asked, until it is signed; from then on it has one witness,
and the same text was relayed each time it was sent. -/
theorem Run.unsigned_or_signed (hp : p₀.Fresh) (h : Run node p₀ s₀ actions p s) :
    (.sign ∉ actions ∧ p = p₀ ∧ s.2 = []) ∨
    (.sign ∈ actions ∧ ∃ w, Endorses w p₀ ∧ p = p₀.endorsed w ∧
      s.2 = List.replicate (sendsOnceSigned actions) (.relay (p₀.sentText w))) := by
  induction h with
  | start => exact .inl ⟨nofun, rfl, rfl⟩
  | @sign actions p p' s _ hsign ih =>
    right
    obtain ⟨hunsigned, rfl, hasked⟩ | ⟨hsigned, w, hw, rfl, hasked⟩ := ih
    -- The call is signed for the first time.
    · obtain ⟨w, hw, rfl⟩ := hp.of_sign hsign
      refine ⟨by simp, w, hw, rfl, ?_⟩
      rw [hasked, sendsOnceSigned_append, if_neg hunsigned]
      rfl
    -- It has its witness already, and signing again leaves it as it is.
    · rw [sign_endorsed] at hsign
      cases hsign
      refine ⟨by simp [hsigned], w, hw, rfl, ?_⟩
      rw [sendsOnceSigned_append, if_pos hsigned]
      exact hasked
  | @send actions p s _ ih =>
    obtain ⟨hunsigned, rfl, hasked⟩ | ⟨hsigned, w, hw, rfl, hasked⟩ := ih
    · refine .inl ⟨by simp [hunsigned], rfl, ?_⟩
      rw [hp.send_eq]
      exact hasked
    · refine .inr ⟨by simp [hsigned], w, hw, rfl, ?_⟩
      rw [send_endorsed_state, sendsOnceSigned_append, if_pos hsigned]
      show s.2 ++ [.relay (p₀.sentText w)] = _
      rw [hasked]
      exact List.replicate_succ'.symm
  | elapse s' _ ih => exact ih

/-! ## Built calls -/

/-- A call without a witness, which is not sent to any node. -/
structure Unsigned (p : Prepared) : Prop where
  witnesses_eq : p.transaction.witnesses = []
  send_eq {τ : Type} (node : Node τ) (t : τ) : p.send node t = (.error .notSigned, t)
  /-- It can be signed if there is a signature that one instruction can push, and a script that
  checks it. -/
  isOk_sign_iff : (∃ p', p.sign = .ok p') ↔ ∃ signature,
    p.account.sign p.transaction.signedPart = .ok signature ∧
      signature.length ≤ Limits.maxPushLength ∧ p.account.signer.verification ≠ []

/-- A call with one witness, which is sent to any node as it is. -/
structure Signed (p : Prepared) (w : Witness) : Prop where
  witnesses_eq : p.transaction.witnesses = [w]
  endorses : Endorses w p
  /-- Signing again changes nothing. -/
  sign_eq : p.sign = .ok p
  /-- Sending is relaying, once. -/
  send_state {τ : Type} (node : Node τ) (t : τ) :
    (p.send node t).2 = (node.relay (p.sentText w) t).2
  /-- Sending gives the name exactly if the node accepts the transaction. -/
  send_eq_ok_iff {τ : Type} (node : Node τ) (t : τ) (id : Hash256) :
    (p.send node t).1 = .ok id ↔ (node.relay (p.sentText w) t).1 = .ok true ∧ id = p.id

/-- A call with a witness of its account has all that a signed call has. -/
theorem signed_of_endorses {w : Witness} (h : Endorses w p) : Signed (p.endorsed w) w where
  witnesses_eq := rfl
  endorses := ⟨h.pushes, h.verification_eq, h.scriptHash_eq⟩
  sign_eq := rfl
  send_state node t := send_endorsed_state node t p w
  send_eq_ok_iff node t id := send_endorsed_eq_ok_iff node t p w id

/-- In whatever order a call that was built is signed and sent, its name is that of the part that is
signed, which stays as it was built. Until it is signed it has no witness and is not sent. From then
on it has the one witness of its account, and each time it is sent, exactly its bytes are
relayed. -/
theorem run_of_built {plan : Plan} (hbuild : plan.build = .ok p₀)
    (hrun : Run node p₀ s₀ actions p s) :
    plan.account = some p.account ∧
    p.id.bytes = Hash.sha256 (Hash.sha256 p.transaction.signedPart) ∧
    p.transaction.signedPart = p₀.transaction.signedPart ∧
    (.sign ∉ actions → Unsigned p ∧ s.2 = []) ∧
    (.sign ∈ actions → ∃ w, Signed p w ∧
      s.2 = List.replicate (sendsOnceSigned actions) (.relay (p.sentText w))) := by
  obtain ⟨hp, haccount⟩ := fresh_of_build hbuild
  have hid : p₀.id.bytes = Hash.sha256 (Hash.sha256 p₀.transaction.signedPart) :=
    congrArg _ hp.id_eq
  obtain ⟨hunsigned, rfl, hasked⟩ | ⟨hsigned, w, hw, rfl, hasked⟩ := hrun.unsigned_or_signed hp
  · exact ⟨haccount, hid, rfl, fun _ => ⟨⟨hp.witnesses_eq, hp.send_eq, hp.isOk_sign_iff⟩, hasked⟩,
      fun hsigned => absurd hsigned hunsigned⟩
  · exact ⟨haccount, hid, rfl, fun hunsigned => absurd hsigned hunsigned,
      fun _ => ⟨w, signed_of_endorses hw, hasked⟩⟩

/-- A node that accepts whatever it is sent. -/
def acceptingNode : Rpc.Rehearsal := ⟨[], [], [.ok true], 0, []⟩

/-- The sample is sent too early, signed, sent, signed again and sent again: it is relayed twice. -/
theorem run_of_built_sample : ∃ (p : Prepared) (w : Witness) (s : Rpc.Rehearsal × List Question),
    Run Rpc.Rehearsal.node sampleCourse.prepared acceptingNode
      [.send, .sign, .send, .sign, .send] p s ∧
    s.2 = [.relay (p.sentText w), .relay (p.sentText w)] ∧
    (p.send Rpc.Rehearsal.node s.1).1 = .ok p.id := by
  have hbuild : samplePlan.build = .ok sampleCourse.prepared := build_eq_ok_iff.2 ⟨_, rfl⟩
  have hpush : Script.pushData sampleCourse.transaction.signedPart = .ok _ :=
    Script.pushData_eq_ok_iff.2 ⟨by decide +kernel, rfl⟩
  have hsign := (fresh_of_build hbuild).1.sign_eq_ok_iff.2 ⟨_, rfl, _, hpush, nofun, rfl⟩
  have hstart : Run Rpc.Rehearsal.node sampleCourse.prepared acceptingNode []
      sampleCourse.prepared (acceptingNode, []) := .start
  have hrun := ((hstart.send.sign hsign).send.sign (sign_endorsed _ _)).send
  obtain ⟨-, -, -, -, hsent⟩ := run_of_built hbuild hrun
  obtain ⟨w, hw, hasked⟩ := hsent (by decide)
  exact ⟨_, w, _, hrun, hasked, (hw.send_eq_ok_iff _ _ _).2 ⟨rfl, rfl⟩⟩

end Prepared

end Call

end LedgerClient
