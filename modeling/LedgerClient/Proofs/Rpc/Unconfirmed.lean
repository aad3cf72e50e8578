import LedgerClient.Proofs.Result
import LedgerClient.Proofs.Rpc.Envelope
import LedgerClient.Rpc.Tracker

/-!
# Waiting on a node that does not know the transaction

What a client asks of a node while it waits for a transaction, and what the node responds, is read
off a client that keeps a record of both (`Client.recordingNode`). As long as the node tells its
height and says that it does not know the transaction, no poll fails and none finds a log, so that
the waiting goes on, however few failures are borne (`Client.replies_told_apart`).

Records have the last request first.
-/

namespace LedgerClient.Rpc

open Ledger (Hash256)

/-! ## Replies that keep one waiting -/

/-- The node responded with a number of blocks. -/
def Reply.TellsHeight (reply : Reply) : Prop :=
  ∃ (text : String) (height : Nat), reply = .body text ∧ height < UInt32.size ∧
    IsEnvelope text (some (.integer height)) none

/-- The node responded that it does not know the transaction, whatever else. -/
def Reply.SaysUnknown (reply : Reply) : Prop :=
  ∃ text result refusal, reply = .body text ∧ IsEnvelope text result (some refusal) ∧
    refusal.failure.SaysUnknown

/-- Such a reply is read as a number of blocks. -/
theorem Reply.TellsHeight.exists_blockCount {reply : Reply} (h : reply.TellsHeight)
    (explain : String → String) : ∃ height, reply.blockCount explain = .ok height := by
  obtain ⟨text, height, rfl, hlt, henvelope⟩ := h
  have hbounds : (0 : Int) ≤ height ∧ (height : Int) ≤ (UInt32.size - 1 : Nat) := by omega
  refine ⟨UInt32.ofNat height, ?_⟩
  rw [blockCount, result_of_envelope henvelope]
  refine Except.bind_eq_ok_iff.2 ⟨.integer height, rfl, ?_⟩
  rw [decode, Json.natural?, Json.integerIn?, if_pos hbounds]
  rfl

/-- Such a reply is read as nothing recorded yet. -/
theorem Reply.SaysUnknown.applicationLog_eq {reply : Reply} (h : reply.SaysUnknown)
    (explain : String → String) : reply.applicationLog explain = .ok none := by
  obtain ⟨text, result, refusal, rfl, henvelope, hunknown⟩ := h
  exact (classified_of_envelope henvelope).unknown_iff.2 ⟨refusal, rfl, hunknown⟩

/-- A request that was carried to the node, with the reply to it. -/
structure Carried where
  request : Request
  reply : Reply

/-- The reply keeps one waiting: it tells the height if that was asked for, and says that the
transaction is not known if what is recorded for it was. -/
structure Carried.Awaits (x : Carried) : Prop where
  height : x.request.method = Reply.blockCountMethod → x.reply.TellsHeight
  log : x.request.method = Reply.applicationLogMethod → x.reply.SaysUnknown

/-- The answers to a poll of a node that tells its height and does not know the transaction. -/
structure Answers.Unconfirmed (a : Answers) : Prop where
  height : ∃ height, a.height = .ok height
  log : a.log = .ok none

/-- The waiting goes on after such answers, however few failures are borne. -/
theorem Answers.Unconfirmed.exists_step {a : Answers} (h : a.Unconfirmed)
    (maxFailures : Option UInt32) (t : Tracker) : ∃ t', t.step maxFailures a = .goesOn t' := by
  obtain ⟨height, hheight⟩ := h.height
  rw [Tracker.step, Tracker.poll, hheight, h.log]
  cases hgrown : t.hasGrown height <;> simp only [hgrown] <;> exact ⟨_, rfl⟩

/-! ## Nodes that remember more -/

namespace Node

variable {σ σ' : Type} {node : Node σ} {node' : Node σ'} {f : σ → σ'} {transaction : Hash256}
  {policy : PollPolicy}

/-- A node answers as another does from a part of its state. -/
structure Projects (node : Node σ) (node' : Node σ') (f : σ → σ') : Prop where
  blockCount (s : σ) : node'.blockCount (f s) = (node.blockCount s).map id f
  applicationLog (transaction : Hash256) (s : σ) :
    node'.applicationLog transaction (f s) = (node.applicationLog transaction s).map id f
  wait (microseconds : Nat) (s : σ) : node'.wait microseconds (f s) = f (node.wait microseconds s)

/-- A poll asks for the number of blocks, and either for the log or for nothing more. -/
theorem answers_eq_or (node : Node σ) (transaction : Hash256) (t : Tracker) (s : σ) :
    node.answers transaction t s = (⟨(node.blockCount s).1, .ok none⟩, (node.blockCount s).2) ∨
    node.answers transaction t s =
      (⟨(node.blockCount s).1, (node.applicationLog transaction (node.blockCount s).2).1⟩,
        (node.applicationLog transaction (node.blockCount s).2).2) := by
  rw [answers]
  obtain ⟨height, s⟩ := node.blockCount s
  cases hasks : t.asksForLog height <;> simp [hasks]

/-- A poll gets the same answers. -/
theorem Projects.answers (h : Projects node node' f) (t : Tracker) (s : σ) :
    node'.answers transaction t (f s) = (node.answers transaction t s).map id f := by
  rw [Node.answers, Node.answers, h.blockCount]
  obtain ⟨height, s⟩ := node.blockCount s
  cases hasks : t.asksForLog height <;> simp [hasks, h.applicationLog]

/-- The waiting goes the same way. -/
theorem Projects.watch (h : Projects node node' f) (polls : Nat) (t : Tracker) (s : σ) :
    node'.watch transaction policy polls t (f s) =
      (node.watch transaction policy polls t s).map id f := by
  induction polls generalizing t s with
  | zero => rfl
  | succ polls ih =>
    rw [Node.watch, Node.watch, h.answers]
    cases hstep : t.step policy.maxFailures (node.answers transaction t s).1 with
    | ends event => simp [hstep]
    | goesOn t' => simp [hstep, h.wait, ih]

/-- What is asked in a poll keeps what each question keeps. -/
structure Keeps (node : Node σ) (P : σ → Prop) : Prop where
  blockCount {s : σ} : P s → P (node.blockCount s).2
  applicationLog {transaction : Hash256} {s : σ} : P s → P (node.applicationLog transaction s).2
  wait {microseconds : Nat} {s : σ} : P s → P (node.wait microseconds s)

/-- Waiting keeps what each question and the time between them keep. -/
theorem Keeps.watch {P : σ → Prop} (h : node.Keeps P) {s : σ} (hs : P s) (polls : Nat)
    (t : Tracker) : P (node.watch transaction policy polls t s).2 := by
  induction polls generalizing t s with
  | zero => exact hs
  | succ polls ih =>
    have hanswers : P (node.answers transaction t s).2 := by
      obtain hasked | hasked := node.answers_eq_or transaction t s <;> rw [hasked]
      · exact h.blockCount hs
      · exact h.applicationLog (h.blockCount hs)
    rw [Node.watch]
    cases hstep : t.step policy.maxFailures (node.answers transaction t s).1 with
    | ends event => simpa only [hstep] using hanswers
    | goesOn t' => simpa only [hstep] using ih (h.wait hanswers) t'

end Node

/-! ## The record of a client -/

namespace Client

variable {τ : Type} (explain : String → String) (send : Endpoint → Request → τ → Reply × τ)
  (wait : Nat → τ → τ)

/-- A client that keeps a record of its requests and of the replies to them. -/
def recordingNode : Node (Client × τ × List Carried) :=
  node explain
    (fun endpoint request (t, record) =>
      let (reply, t) := send endpoint request t
      (reply, t, ⟨request, reply⟩ :: record))
    fun microseconds (t, record) => (wait microseconds t, record)

/-- The record changes nothing of what a client does. -/
theorem projects_recordingNode :
    (recordingNode explain send wait).Projects (node explain send wait) fun (c, t, _) => (c, t) :=
  ⟨fun _ => rfl, fun _ _ => rfl, fun _ _ => rfl⟩

variable {explain send wait} {transaction : Hash256} {policy : PollPolicy} {tracker : Tracker}
  {s : Client × τ × List Carried}

/-- What is recorded was carried. -/
theorem keeps_carried : (recordingNode explain send wait).Keeps fun (_, _, record) =>
    ∀ x ∈ record, ∃ endpoint t, (send endpoint x.request t).1 = x.reply where
  blockCount h := List.forall_mem_cons.2 ⟨⟨_, _, rfl⟩, h⟩
  applicationLog h := List.forall_mem_cons.2 ⟨⟨_, _, rfl⟩, h⟩
  wait h := h

/-- If everything that was carried keeps one waiting, the answers to the last poll do. -/
theorem unconfirmed_of_awaits
    (h : ∀ x ∈ ((recordingNode explain send wait).answers transaction tracker s).2.2.2, x.Awaits) :
    ((recordingNode explain send wait).answers transaction tracker s).1.Unconfirmed := by
  obtain hasked | hasked := (recordingNode explain send wait).answers_eq_or transaction tracker s <;>
    rw [hasked] at h ⊢
  · obtain ⟨hheight, -⟩ := List.forall_mem_cons.1 h
    exact ⟨(hheight.height rfl).exists_blockCount explain, rfl⟩
  · obtain ⟨hlog, hlater⟩ := List.forall_mem_cons.1 h
    obtain ⟨hheight, -⟩ := List.forall_mem_cons.1 hlater
    exact ⟨(hheight.height rfl).exists_blockCount explain, (hlog.log rfl).applicationLog_eq explain⟩

/-- The waiting goes on as long as everything that was carried keeps one waiting. -/
theorem watch_eq_none_of_awaits {polls : Nat}
    (h : ∀ x ∈ ((recordingNode explain send wait).watch transaction policy polls tracker s).2.2.2,
      x.Awaits) :
    ((recordingNode explain send wait).watch transaction policy polls tracker s).1 = none := by
  induction polls generalizing tracker s with
  | zero => rfl
  | succ polls ih =>
    rw [Node.watch] at h ⊢
    cases hstep : tracker.step policy.maxFailures
        ((recordingNode explain send wait).answers transaction tracker s).1 with
    | ends event =>
      -- An event ends the record at its poll, so that the answers to that poll are unconfirmed too.
      simp only [hstep] at h
      obtain ⟨t', ht'⟩ := (unconfirmed_of_awaits h).exists_step policy.maxFailures tracker
      cases hstep.symm.trans ht'
    | goesOn t' =>
      simp only [hstep] at h ⊢
      exact ih h

/-- A reply is an envelope or none, and the answer to the question for what is recorded is told by
what the envelope holds. While a transaction is waited for, no event ends the waiting as long as
every number of blocks that was asked for is told and every question for the log is answered by an
error that says that the transaction is not known. -/
theorem replies_told_apart {τ : Type} (explain : String → String)
    (send : Endpoint → Request → τ → Reply × τ) (wait : Nat → τ → τ) :
    (∀ (text : String) (result : Option Json) (refusal : Option Refusal),
      (∃ r, (Json.parse? text).bind Response.ofJson? = some r ∧
        r.result = result ∧ r.refusal = refusal) ↔ IsEnvelope text result refusal) ∧
    (∀ (transaction : Hash256) (c : Client) (t : τ) (text : String) (result : Option Json)
      (refusal : Option Refusal),
      (send c.endpoint (c.askApplicationLog transaction).1 t).1 = .body text →
        IsEnvelope text result refusal →
          Classified result refusal
            ((node explain send wait).applicationLog transaction (c, t)).1) ∧
    ∀ (transaction : Hash256) (policy : PollPolicy) (polls : Nat) (c : Client) (t : τ),
      ∃ event c' t' record,
        (recordingNode explain send wait).watch transaction policy polls .new (c, t, []) =
          (event, c', t', record) ∧
        (node explain send wait).watch transaction policy polls .new (c, t) = (event, c', t') ∧
        (∀ x ∈ record, ∃ endpoint t, (send endpoint x.request t).1 = x.reply) ∧
        ((∀ x ∈ record, x.Awaits) → event = none) := by
  refine ⟨fun _ _ _ => decodes_iff_isEnvelope, ?_, ?_⟩
  · intro transaction c t text result refusal hreply henvelope
    show Classified result refusal
      ((send c.endpoint (c.askApplicationLog transaction).1 t).1.applicationLog explain)
    rw [hreply]
    exact Reply.classified_of_envelope henvelope
  · intro transaction policy polls c t
    exact ⟨_, _, _, _, rfl, (projects_recordingNode explain send wait).watch polls .new (c, t, []),
      keeps_carried.watch (by simp) polls .new, watch_eq_none_of_awaits⟩

/-- The response of a node that has seven blocks. -/
def sevenBlocks : String := "\x7b\"id\":1,\"result\":7\x7d"

/-- The number of blocks stands in a response with a result. -/
theorem isEnvelope_sevenBlocks : IsEnvelope sevenBlocks (some (.integer 7)) none := by
  have hparse : Json.parse? sevenBlocks =
      some (.object [("id", .integer 1), ("result", .integer 7)]) := by
    rw [Json.parse?, Json.Token.scan, String.foldl_eq_foldl_toList]
    rfl
  exact .intro hparse rfl (by simp [Json.settle?]) (by simp) (.value nofun rfl) .absent

/-- The response of a node that does not know a transaction. It says so by its words alone, and has
a result beside them. -/
def noSuchTransaction : String :=
  "\x7b\"result\":[],\"error\":\x7b\"code\":-1,\"message\":\"No! Unknown Transaction\"\x7d\x7d"

/-- The other response has both a result and an error. -/
theorem isEnvelope_noSuchTransaction : IsEnvelope noSuchTransaction (some (.array []))
    (some ⟨-1, "No! Unknown Transaction", none⟩) := by
  have hparse : Json.parse? noSuchTransaction = some (.object [("result", .array []),
      ("error", .object [("code", .integer (-1)),
        ("message", .string "No! Unknown Transaction")])]) := by
    rw [Json.parse?, Json.Token.scan, String.foldl_eq_foldl_toList]
    rfl
  exact .intro hparse rfl (by simp) (by simp) (.value nofun rfl) (.value nofun rfl)

/-- Carries requests to a node that always responds in these two ways. -/
def forgetful : Endpoint → Request → Unit → Reply × Unit := fun _ request t =>
  (.body (if request.method = Reply.blockCountMethod then sevenBlocks else noSuchTransaction), t)

/-- A client of a node on the same computer. -/
def localClient : Client := .new ⟨"http", "", some "localhost", some 10332, "/", "", ""⟩

/-- Such a node has nothing recorded, and although one failure would end the waiting, it goes on for
a thousand polls. -/
theorem replies_told_apart_sample :
    ((node Reply.unexplained forgetful fun _ t => t).applicationLog .zero (localClient, ())).1 =
      .ok none ∧
    ((node Reply.unexplained forgetful fun _ t => t).watch .zero ⟨1000, some 1⟩ 1000 .new
      (localClient, ())).1 = none := by
  obtain ⟨-, htold, hwaits⟩ := replies_told_apart Reply.unexplained forgetful fun _ t => t
  have hunknown : (Refusal.failure ⟨-1, "No! Unknown Transaction", none⟩).SaysUnknown :=
    .inr ⟨"Unknown Transaction".toList, ⟨"No! ".toList, [], rfl⟩, rfl⟩
  constructor
  · exact (htold .zero localClient () noSuchTransaction _ _ rfl
      isEnvelope_noSuchTransaction).unknown_iff.2 ⟨_, rfl, hunknown⟩
  · obtain ⟨event, c, t, record, -, hwatch, hcarried, hnone⟩ :=
      hwaits .zero ⟨1000, some 1⟩ 1000 localClient ()
    rw [hwatch]
    refine hnone fun x hx => ?_
    obtain ⟨endpoint, t, hreply⟩ := hcarried x hx
    constructor
    · intro hmethod
      refine ⟨sevenBlocks, 7, ?_, by decide, isEnvelope_sevenBlocks⟩
      rw [← hreply, forgetful, if_pos hmethod]
    · intro hmethod
      refine ⟨noSuchTransaction, _, _, ?_, isEnvelope_noSuchTransaction, hunknown⟩
      rw [← hreply, forgetful, hmethod]
      rfl

end Client

end LedgerClient.Rpc
