import LedgerClient.Proofs.Rpc.Waiting

/-!
# When the log is asked for

What a node is asked while a transaction is waited for is read off a node that keeps a record of its
answers (`Node.recording`). The record is one of polls, and in each of them the log is asked for
exactly if the chain has grown since the node did not know the transaction
(`Node.log_asked_on_growth`). Nothing else that was answered matters. So a question for the log that
failed is asked again at the same height, and once the transaction was unknown at a height there is
no question at that height or a lower one (`AsksOnGrowth`).

Records, like lists of polls, have the last first.
-/

namespace LedgerClient.Rpc

open Ledger (Hash256)

/-! ## Polls that ask when the chain has grown -/

/-- The node did not know the transaction if it was asked for the log and had none. -/
theorem Polled.unknownAt?_eq_some_iff {p : Polled} {height : UInt32} :
    p.unknownAt? = some height ↔ p.height = .ok height ∧ p.log = some (.ok none) := by
  obtain ⟨answer, log⟩ := p
  rcases answer with failure | height' <;> rcases log with _ | _ | _ | log <;>
    simp [Polled.unknownAt?, Polled.outcome]

/-- A poll asks for the log if it has a height beyond each at which the transaction was unknown. -/
theorem wantsLog_eq_true_iff {earlier : List Polled} {answer : Except Failure UInt32} :
    wantsLog earlier answer = true ↔ ∃ height, answer = .ok height ∧
      ∀ q ∈ earlier, ∀ unknownAt, q.unknownAt? = some unknownAt → unknownAt < height := by
  cases answer with
  | error failure => simp [wantsLog]
  | ok height =>
    simp only [wantsLog, List.all_eq_true, List.mem_filterMap, decide_eq_true_eq, Except.ok.injEq,
      exists_eq_left']
    constructor
    · intro h q hq unknownAt hunknown
      exact h unknownAt ⟨q, hq, hunknown⟩
    · rintro h unknownAt ⟨q, hq, hunknown⟩
      exact h q hq unknownAt hunknown

/-- Each of the polls asked for the log if it wanted to. -/
inductive Asked : List Polled → Prop
  | nil : Asked []
  | cons {p : Polled} {earlier : List Polled} :
    p.log.isSome = wantsLog earlier p.height → Asked earlier → Asked (p :: earlier)

/-- In which of the polls the log is asked for. -/
structure AsksOnGrowth (polls : List Polled) : Prop where
  /-- The chain is longer than each time when the node did not know the transaction. -/
  asks_iff {later earlier : List Polled} {p : Polled} : polls = later ++ p :: earlier →
    (p.log.isSome ↔ ∃ height, p.height = .ok height ∧
      ∀ q ∈ earlier, ∀ unknownAt, q.unknownAt? = some unknownAt → unknownAt < height)
  /-- The log is asked for at the first height there is. -/
  first {later earlier : List Polled} {p : Polled} {height : UInt32} :
    polls = later ++ p :: earlier → p.height = .ok height →
    (∀ q ∈ earlier, ∃ failure, q.height = .error failure) → p.log.isSome
  /-- The heights at which the transaction is unknown rise. -/
  rises : (polls.filterMap Polled.unknownAt?).Pairwise fun last earlier => earlier < last
  /-- A question for the log that failed is repeated at the next height, even if it is the same. -/
  repeats {later between earlier : List Polled} {p q : Polled} {height asked : UInt32}
    {failure : Failure} : polls = later ++ p :: (between ++ q :: earlier) →
    q.height = .ok asked → q.log = some (.error failure) →
    (∀ r ∈ between, ∃ failure, r.height = .error failure) →
    p.height = .ok height → asked ≤ height → p.log.isSome
  /-- The log is not asked for if the chain falls back to where the transaction was unknown. -/
  falls {later earlier : List Polled} {p q : Polled} {height unknownAt : UInt32} :
    polls = later ++ p :: earlier → q ∈ earlier → q.unknownAt? = some unknownAt →
    p.height = .ok height → height ≤ unknownAt → p.log = none

namespace Asked

variable {polls later earlier : List Polled} {p : Polled}

/-- What each of the polls wanted. -/
theorem isSome_log (h : Asked polls) (hpolls : polls = later ++ p :: earlier) :
    p.log.isSome = wantsLog earlier p.height := by
  subst hpolls
  induction later with
  | nil =>
    cases h with
    | cons hp _ => exact hp
  | cons q later ih =>
    cases h with
    | cons _ hlater => exact ih hlater

/-- Polls that asked what they wanted ask at each new height. -/
theorem asks_iff (h : Asked polls) (hpolls : polls = later ++ p :: earlier) :
    p.log.isSome ↔ ∃ height, p.height = .ok height ∧
      ∀ q ∈ earlier, ∀ unknownAt, q.unknownAt? = some unknownAt → unknownAt < height := by
  rw [h.isSome_log hpolls, wantsLog_eq_true_iff]

/-- So the heights at which they find the transaction unknown rise. -/
theorem rises (h : Asked polls) :
    (polls.filterMap Polled.unknownAt?).Pairwise fun last earlier => earlier < last := by
  induction h with
  | nil => exact .nil
  | @cons p earlier hp _ ih =>
    rw [List.filterMap_cons]
    cases hunknown : p.unknownAt? with
    | none => exact ih
    | some height =>
      obtain ⟨hheight, hlog⟩ := Polled.unknownAt?_eq_some_iff.1 hunknown
      rw [hheight, hlog] at hp
      refine .cons ?_ ih
      intro unknownAt hmem
      rw [Option.isSome_some, eq_comm, wantsLog, List.all_eq_true] at hp
      exact of_decide_eq_true (hp unknownAt hmem)

/-- In such polls the log is asked for when the chain has grown. A question that failed leaves no
height behind, and so it is asked again as soon as there is a height that is no lower. -/
theorem asksOnGrowth (h : Asked polls) : AsksOnGrowth polls where
  asks_iff := h.asks_iff
  first hpolls hheight hfailed := by
    refine (h.asks_iff hpolls).2 ⟨_, hheight, ?_⟩
    intro q hq unknownAt hunknown
    obtain ⟨failure, hfailure⟩ := hfailed q hq
    cases hfailure.symm.trans (Polled.unknownAt?_eq_some_iff.1 hunknown).1
  rises := h.rises
  repeats {later between earlier p q height asked failure} hpolls hasked hlog hbetween hheight
      hle := by
    have hq : polls = (later ++ p :: between) ++ q :: earlier := by simp [hpolls]
    obtain ⟨asked', hasked', hbeyond⟩ := (h.asks_iff hq).1 (by rw [hlog]; rfl)
    cases hasked.symm.trans hasked'
    refine (h.asks_iff hpolls).2 ⟨height, hheight, ?_⟩
    intro r hr unknownAt hunknown
    obtain ⟨hrheight, hrlog⟩ := Polled.unknownAt?_eq_some_iff.1 hunknown
    rcases List.mem_append.1 hr with hr | hr
    · obtain ⟨failure, hfailure⟩ := hbetween r hr
      cases hfailure.symm.trans hrheight
    rcases List.mem_cons.1 hr with rfl | hr
    · cases hlog.symm.trans hrlog
    · exact UInt32.lt_of_lt_of_le (hbeyond r hr unknownAt hunknown) hle
  falls {later earlier p q height unknownAt} hpolls hq hunknown hheight hle := by
    rw [← Option.not_isSome_iff_eq_none, h.asks_iff hpolls]
    intro ⟨height', hheight', hbeyond⟩
    cases hheight.symm.trans hheight'
    exact UInt32.not_lt.2 hle (hbeyond q hq unknownAt hunknown)

end Asked

/-! ## The record of a node -/

/-- A question to a node and its answer. -/
inductive Answered where
  | relay (hex : String) (answer : Except Failure Bool)
  | blockCount (answer : Except Failure UInt32)
  | applicationLog (transaction : Hash256) (answer : Except Failure (Option ApplicationLog))

/-- What is recorded of a poll. -/
def Polled.record (transaction : Hash256) (p : Polled) : List Answered :=
  match p.log with
  | none => [.blockCount p.height]
  | some answer => [.applicationLog transaction answer, .blockCount p.height]

namespace Node

variable {σ : Type}

/-- The node, with a record of what it is asked and of its answers. -/
def recording (node : Node σ) : Node (σ × List Answered) where
  relay hex := fun (s, record) =>
    let (answer, s) := node.relay hex s
    (answer, s, .relay hex answer :: record)
  blockCount := fun (s, record) =>
    let (answer, s) := node.blockCount s
    (answer, s, .blockCount answer :: record)
  applicationLog transaction := fun (s, record) =>
    let (answer, s) := node.applicationLog transaction s
    (answer, s, .applicationLog transaction answer :: record)
  wait microseconds := fun (s, record) => (node.wait microseconds s, record)

variable (node : Node σ) (transaction : Hash256) (policy : PollPolicy) {earlier : List Polled}
  {t : Tracker}

/-- Of a poll is recorded what it asked. -/
theorem answers_recording (h : Tracker.Remembers earlier t) (s : σ) (record : List Answered) :
    node.recording.answers transaction t (s, record) =
      ((node.poll transaction earlier s).1.answers, (node.poll transaction earlier s).2,
        (node.poll transaction earlier s).1.record transaction ++ record) := by
  simp only [answers, poll, recording, h.asksForLog_eq]
  split <;> rfl

/-- Each poll of a node asks for the log if it wants to. -/
theorem asked_pollAgain (hasked : Asked earlier) (s : σ) (polls : Nat) :
    Asked ((node.pollAgain transaction policy)^[polls] (earlier, s)).1 := by
  induction polls generalizing earlier s with
  | zero => exact hasked
  | succ polls ih => exact ih (.cons isSome_log_poll hasked) _

/-- The waiting goes the same way with a record of it, which is that of the polls up to its end. -/
theorem exists_watch_recording (h : Tracker.Remembers earlier t) (s : σ) (polls : Nat) :
    ∃ made ≤ polls, ((node.watch transaction policy polls t s).1 = none → made = polls) ∧
      node.recording.watch transaction policy polls t
          (s, earlier.flatMap (·.record transaction)) =
        ((node.watch transaction policy polls t s).1, (node.watch transaction policy polls t s).2,
          ((node.pollAgain transaction policy)^[made] (earlier, s)).1.flatMap
            (·.record transaction)) := by
  induction polls generalizing earlier t s with
  | zero => exact ⟨0, Nat.le_refl 0, fun _ => rfl, rfl⟩
  | succ polls ih =>
    rw [watch, watch, answers_recording node transaction h, answers_eq h]
    cases hstep : t.step policy.maxFailures (node.poll transaction earlier s).1.answers with
    | ends event =>
      simp only [hstep]
      exact ⟨1, Nat.succ_le_succ (Nat.zero_le polls), by simp, rfl⟩
    | goesOn t' =>
      simp only [hstep]
      obtain ⟨made, hle, hall, hwatch⟩ := ih (h.step isSome_log_poll hstep)
        (node.wait policy.period (node.poll transaction earlier s).2)
      exact ⟨made + 1, Nat.succ_le_succ hle, fun hnone => congrArg _ (hall hnone), hwatch⟩

/-- Whatever a node answers, it is asked in polls, as many as are waited for unless an event ends
the waiting before. In each poll it is asked for the number of blocks, and for the log exactly if
the chain is longer than each time when it did not know the transaction. -/
theorem log_asked_on_growth (s : σ) (polls : Nat) :
    ∃ made ≤ polls, ((node.watch transaction policy polls .new s).1 = none → made = polls) ∧
      node.recording.watch transaction policy polls .new (s, []) =
        ((node.watch transaction policy polls .new s).1,
          (node.watch transaction policy polls .new s).2,
          (node.history transaction policy s made).1.flatMap (·.record transaction)) ∧
      AsksOnGrowth (node.history transaction policy s made).1 := by
  obtain ⟨made, hle, hall, hwatch⟩ :=
    exists_watch_recording node transaction policy Tracker.remembers_new s polls
  exact ⟨made, hle, hall, hwatch, (asked_pollAgain node transaction policy .nil s made).asksOnGrowth⟩

/-- A node whose chain stands still, falls back and grows. It fails to answer the first question for
the log, and then does not know the transaction. -/
def risingNode : Rehearsal :=
  ⟨[.ok 10, .ok 10, .ok 10, .ok 9, .ok 12], [.error Rehearsal.offline, .ok none], [], 0, []⟩

/-- Such a node is asked for the log twice at the height 10, where it failed at first, and then not
before the height 12. -/
theorem log_asked_on_growth_sample :
    (watch Rehearsal.node.recording .zero ⟨1000, none⟩ 5 .new (risingNode, [])).2.2 =
      [.applicationLog .zero (.ok none), .blockCount (.ok 12), .blockCount (.ok 9),
        .blockCount (.ok 10), .applicationLog .zero (.ok none), .blockCount (.ok 10),
        .applicationLog .zero (.error Rehearsal.offline), .blockCount (.ok 10)] ∧
    AsksOnGrowth (history Rehearsal.node .zero ⟨1000, none⟩ risingNode 5).1 := by
  obtain ⟨made, -, hall, hwatch, hasks⟩ :=
    log_asked_on_growth Rehearsal.node .zero ⟨1000, none⟩ risingNode 5
  obtain rfl := hall rfl
  rw [hwatch]
  exact ⟨rfl, hasks⟩

end Node

end LedgerClient.Rpc
