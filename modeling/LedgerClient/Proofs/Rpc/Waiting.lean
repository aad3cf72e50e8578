import LedgerClient.Rpc.Rehearsal
import Mathlib.Logic.Function.Iterate

/-!
# When the waiting ends

When the waiting for a log ends is said here by what a node answered in all polls so far
(`Node.history`), without what a tracker remembers of it: which polls ask for the log (`wantsLog`),
and which polls end the waiting with which event (`Ends`). A tracker remembers as much as it takes
to go by that (`Tracker.Remembers`). So the waiting ends at the first poll that ends it, and nothing
is asked any more (`Node.watch_ends`).

Lists of polls have the last poll first.
-/

namespace LedgerClient.Rpc

open Ledger (Hash256)

/-! ## Polls -/

/-- What a node answered in a poll. -/
structure Polled where
  height : Except Failure UInt32
  /-- The answer to the question for the log, if that was asked. -/
  log : Option (Except Failure (Option ApplicationLog))

namespace Polled

/-- What a poll came to. -/
def outcome (p : Polled) : Tracker.Poll :=
  match p.height, p.log with
  | .error failure, _ => .failed failure
  | .ok _, none => .nothing
  | .ok _, some (.error failure) => .failed failure
  | .ok height, some (.ok none) => .unknown height
  | .ok _, some (.ok (some log)) => .found log

/-- Whether one of the answers failed. -/
def hasFailed (p : Polled) : Bool :=
  match p.outcome with
  | .failed _ => true
  | _ => false

/-- The height at which the node said that it does not know the transaction. -/
def unknownAt? (p : Polled) : Option UInt32 :=
  match p.outcome with
  | .unknown height => some height
  | _ => none

/-- The transaction is unknown only where there is a height and the log was asked for. -/
theorem of_outcome_unknown {p : Polled} {height : UInt32} (h : p.outcome = .unknown height) :
    p.height = .ok height ∧ p.log.isSome := by
  obtain ⟨answer, log⟩ := p
  rcases answer with failure | height' <;> rcases log with _ | _ | _ | log <;> cases h
  exact ⟨rfl, rfl⟩

/-- A poll that comes to a failure has failed. -/
theorem hasFailed_of_outcome {p : Polled} {failure : Failure} (h : p.outcome = .failed failure) :
    p.hasFailed = true := by
  rw [hasFailed, h]

/-- What a tracker is given of a poll. -/
def answers (p : Polled) : Answers := ⟨p.height, p.log.getD (.ok none)⟩

end Polled

/-- Whether a poll asks for the log after earlier polls: the chain is longer than each time when the
node did not know the transaction. -/
def wantsLog (earlier : List Polled) : Except Failure UInt32 → Bool
  | .error _ => false
  | .ok height => (earlier.filterMap Polled.unknownAt?).all (· < height)

/-- One more poll counts if the transaction was unknown in it. -/
theorem wantsLog_cons (p : Polled) (earlier : List Polled) (height : UInt32) :
    wantsLog (p :: earlier) (.ok height) =
      (p.unknownAt?.all (· < height) && wantsLog earlier (.ok height)) := by
  rw [wantsLog, List.filterMap_cons, wantsLog]
  cases p.unknownAt? <;> rfl

/-- A height beyond one at which the log was asked for is beyond all heights before. -/
theorem wantsLog_of_lt {earlier : List Polled} {height higher : UInt32} (hlt : height < higher)
    (h : wantsLog earlier (.ok height) = true) : wantsLog earlier (.ok higher) = true := by
  rw [wantsLog, List.all_eq_true] at h ⊢
  exact fun unknownAt hmem =>
    decide_eq_true (UInt32.lt_trans (of_decide_eq_true (h unknownAt hmem)) hlt)

/-- There are so many polls, and the last so many of them failed. -/
def LastFailed (n : Nat) (polls : List Polled) : Prop :=
  n ≤ polls.length ∧ ∀ p ∈ polls.take n, p.hasFailed

/-- The last poll ends the waiting with an event. -/
inductive Ends (maxFailures : Option UInt32) : List Polled → Event → Prop
  /-- It found the log. -/
  | found {p : Polled} {earlier : List Polled} {log : ApplicationLog} :
    p.outcome = .found log → Ends maxFailures (p :: earlier) (.ok log)
  /-- It failed, and so did as many polls up to it as the limit says. -/
  | failed {p : Polled} {earlier : List Polled} {failure : Failure} {limit : UInt32} :
    p.outcome = .failed failure → maxFailures = some limit →
    LastFailed (max limit.toNat 1) (p :: earlier) → Ends maxFailures (p :: earlier) (.error failure)

/-- Failures end the waiting only if there is a limit to them. -/
theorem Ends.exists_limit {maxFailures : Option UInt32} {polls : List Polled} {failure : Failure}
    (h : Ends maxFailures polls (.error failure)) : ∃ limit, maxFailures = some limit := by
  cases h with
  | failed _ hlimit _ => exact ⟨_, hlimit⟩

/-! ## Failures in a row -/

/-- The number of failures in a row up to the last poll. -/
def failuresInARow (polls : List Polled) : Nat := (polls.takeWhile Polled.hasFailed).length

/-- One more poll adds a failure to those in a row, or ends the row. -/
theorem failuresInARow_cons (p : Polled) (polls : List Polled) :
    failuresInARow (p :: polls) = if p.hasFailed then failuresInARow polls + 1 else 0 := by
  rw [failuresInARow, List.takeWhile_cons]
  split <;> rfl

/-- The last so many polls failed if there are as many failures in a row. -/
theorem lastFailed_iff {n : Nat} {polls : List Polled} :
    LastFailed n polls ↔ n ≤ failuresInARow polls := by
  induction polls generalizing n with
  | nil => simp [LastFailed, failuresInARow]
  | cons p polls ih =>
    cases n with
    | zero => simp [LastFailed]
    | succ n =>
      have hcons : LastFailed (n + 1) (p :: polls) ↔ p.hasFailed ∧ LastFailed n polls := by
        rw [LastFailed, LastFailed, List.take_succ_cons, List.forall_mem_cons, List.length_cons,
          Nat.add_le_add_iff_right]
        exact and_left_comm
      rw [hcons, ih, failuresInARow_cons]
      by_cases hfailed : p.hasFailed <;> simp [hfailed]

/-- The waiting goes on if there is no log and there are not so many failures in a row. -/
theorem not_ends_of_lt_limit {limit : UInt32} {p : Polled} {earlier : List Polled}
    (hlog : ∀ log, p.outcome ≠ .found log)
    (hfew : failuresInARow (p :: earlier) < max limit.toNat 1) (event : Event) :
    ¬ Ends (some limit) (p :: earlier) event := by
  intro h
  cases h with
  | found hp => exact hlog _ hp
  | failed _ hlimit hlast =>
    cases hlimit
    exact Nat.not_le_of_lt hfew (lastFailed_iff.1 hlast)

/-- As long as the waiting goes on, there are fewer failures in a row than the limit says. -/
theorem failuresInARow_lt_limit {limit : UInt32} {polls : List Polled}
    (hgoes : ∀ event, ¬ Ends (some limit) polls event) :
    failuresInARow polls < max limit.toNat 1 := by
  cases polls with
  | nil => exact Nat.lt_of_lt_of_le Nat.one_pos (Nat.le_max_right ..)
  | cons p earlier =>
    by_contra hlast
    cases hp : p.outcome with
    | failed failure =>
      exact hgoes _ (.failed hp rfl (lastFailed_iff.2 (Nat.le_of_not_lt hlast)))
    | _ =>
      rw [failuresInARow_cons, Polled.hasFailed, hp] at hlast
      simp at hlast

/-! ## What is remembered -/

namespace Tracker

/-- A tracker remembers of earlier polls what it needs to know. -/
structure Remembers (earlier : List Polled) (t : Tracker) : Prop where
  hasGrown_eq (height : UInt32) : t.hasGrown height = wantsLog earlier (.ok height)
  failures_eq : t.failures = failuresInARow earlier

/-- A new tracker has nothing to remember. -/
theorem remembers_new : Remembers [] .new where
  hasGrown_eq _ := rfl
  failures_eq := rfl

variable {maxFailures : Option UInt32} {earlier : List Polled} {t t' : Tracker} {p : Polled}

/-- A tracker asks for the log when the polls so far want it. -/
theorem Remembers.asksForLog_eq (h : Remembers earlier t) (answer : Except Failure UInt32) :
    t.asksForLog answer = wantsLog earlier answer := by
  cases answer with
  | error failure => rfl
  | ok height => exact h.hasGrown_eq height

/-- What a tracker makes of its answers to a poll that asked what it wanted to know. -/
theorem Remembers.poll_answers (h : Remembers earlier t)
    (hasked : p.log.isSome = wantsLog earlier p.height) : t.poll p.answers = p.outcome := by
  obtain ⟨height, log⟩ := p
  rw [← h.asksForLog_eq] at hasked
  cases height with
  | error failure => rfl
  | ok height =>
    cases log with
    | none =>
      have hgrown : t.hasGrown height = false := hasked.symm
      simp [poll, Polled.answers, Polled.outcome, hgrown]
    | some answer =>
      have hgrown : t.hasGrown height = true := hasked.symm
      obtain _ | _ | _ := answer <;> simp [poll, Polled.answers, Polled.outcome, hgrown]

/-- There are too many failures if there is a limit and they have reached it. -/
theorem isTooMany_iff {failures : Nat} :
    isTooMany maxFailures failures = true ↔
      ∃ limit, maxFailures = some limit ∧ limit.toNat ≤ failures := by
  cases maxFailures with
  | none => exact iff_of_false nofun fun ⟨_, h, _⟩ => nomatch h
  | some limit =>
    refine decide_eq_true_iff.trans ⟨fun hle => ⟨limit, rfl, hle⟩, ?_⟩
    rintro ⟨_, ⟨⟩, hle⟩
    exact hle

/-- What ends the waiting: a log, or a failure of which there were too many in a row. -/
theorem after_eq_ends_iff {outcome : Poll} {event : Event} :
    t.after maxFailures outcome = .ends event ↔
      (∃ log, outcome = .found log ∧ event = .ok log) ∨
      ∃ failure, outcome = .failed failure ∧ isTooMany maxFailures (t.failures + 1) = true ∧
        event = .error failure := by
  cases outcome with
  | found log =>
    constructor
    · rintro ⟨⟩
      exact .inl ⟨log, rfl, rfl⟩
    · rintro (⟨_, ⟨⟩, rfl⟩ | ⟨_, ⟨⟩, _⟩)
      rfl
  | nothing | unknown height => exact iff_of_false nofun (by rintro (⟨_, ⟨⟩, _⟩ | ⟨_, ⟨⟩, _⟩))
  | failed failure =>
    rw [after]
    constructor
    · intro h
      split at h
      · next hmany =>
        cases h
        exact .inr ⟨failure, rfl, hmany, rfl⟩
      · cases h
    · rintro (⟨_, ⟨⟩, _⟩ | ⟨_, ⟨⟩, hmany, rfl⟩)
      exact if_pos hmany

/-- A tracker ends the waiting with the polls that end it. -/
theorem Remembers.step_eq_ends_iff (h : Remembers earlier t)
    (hasked : p.log.isSome = wantsLog earlier p.height) {event : Event} :
    t.step maxFailures p.answers = .ends event ↔ Ends maxFailures (p :: earlier) event := by
  have hlast {failure : Failure} {limit : UInt32} (hp : p.outcome = .failed failure) :
      limit.toNat ≤ t.failures + 1 ↔ LastFailed (max limit.toNat 1) (p :: earlier) := by
    rw [lastFailed_iff, failuresInARow_cons, if_pos (Polled.hasFailed_of_outcome hp), h.failures_eq]
    omega
  rw [step, h.poll_answers hasked, after_eq_ends_iff]
  constructor
  · rintro (⟨log, hp, rfl⟩ | ⟨failure, hp, hmany, rfl⟩)
    · exact .found hp
    · obtain ⟨limit, hlimit, hle⟩ := isTooMany_iff.1 hmany
      exact .failed hp hlimit ((hlast hp).1 hle)
  · intro hends
    cases hends with
    | found hp => exact .inl ⟨_, hp, rfl⟩
    | failed hp hlimit hfailed =>
      exact .inr ⟨_, hp, isTooMany_iff.2 ⟨_, hlimit, (hlast hp).2 hfailed⟩, rfl⟩

/-- A tracker that goes on remembers one more poll. -/
theorem Remembers.step (h : Remembers earlier t)
    (hasked : p.log.isSome = wantsLog earlier p.height)
    (hstep : t.step maxFailures p.answers = .goesOn t') : Remembers (p :: earlier) t' := by
  rw [Tracker.step, h.poll_answers hasked] at hstep
  -- The heights at which the log was asked for rise, so that the last of them stands for all.
  have hgrown (height : UInt32) : wantsLog (p :: earlier) (.ok height) =
      (p.unknownAt?.all (· < height) && t.hasGrown height) := by
    rw [wantsLog_cons, h.hasGrown_eq]
  have hrow := failuresInARow_cons p earlier
  rw [← h.failures_eq] at hrow
  rw [Polled.unknownAt?] at hgrown
  rw [Polled.hasFailed] at hrow
  cases hp : p.outcome with
  | found log =>
    rw [hp] at hstep
    cases hstep
  | nothing =>
    rw [hp] at hstep hgrown hrow
    cases hstep
    exact ⟨fun height => (hgrown height).symm, hrow.symm⟩
  | unknown unknownAt =>
    obtain ⟨hheight, hlog⟩ := Polled.of_outcome_unknown hp
    rw [hheight, hlog] at hasked
    rw [hp] at hstep hgrown hrow
    cases hstep
    refine ⟨fun height => ?_, hrow.symm⟩
    rw [hgrown, h.hasGrown_eq]
    show decide (unknownAt < height) = (decide (unknownAt < height) && _)
    by_cases hlt : unknownAt < height
    · rw [wantsLog_of_lt hlt hasked.symm, Bool.and_true]
    · rw [decide_eq_false hlt, Bool.false_and]
  | failed failure =>
    rw [hp, after] at hstep
    rw [hp] at hgrown hrow
    split at hstep
    · cases hstep
    · cases hstep
      exact ⟨fun height => (hgrown height).symm, hrow.symm⟩

/-- What a tracker counts fits 32 bits, if those failures in a row do that are borne without a
limit. -/
theorem Remembers.failures_lt_size (h : Remembers (p :: earlier) t)
    (hgoes : ∀ event, ¬ Ends maxFailures earlier event)
    (hfew : maxFailures = none → failuresInARow (p :: earlier) < UInt32.size) :
    t.failures < UInt32.size := by
  rw [h.failures_eq]
  cases maxFailures with
  | none => exact hfew rfl
  | some limit =>
    have hlimit := failuresInARow_lt_limit hgoes
    have hsize := limit.toNat_lt_size
    have hone : 1 < UInt32.size := by decide
    rw [failuresInARow_cons]
    split <;> omega

end Tracker

/-! ## Polling -/

namespace Node

variable {σ : Type} (node : Node σ) (transaction : Hash256) (policy : PollPolicy)

/-- One more poll after earlier ones. -/
def poll (earlier : List Polled) (s : σ) : Polled × σ :=
  let (height, s) := node.blockCount s
  if wantsLog earlier height then
    let (log, s) := node.applicationLog transaction s
    (⟨height, some log⟩, s)
  else (⟨height, none⟩, s)

/-- The polls and the state of the node after one more poll, and the time until the next. -/
def pollAgain : List Polled × σ → List Polled × σ := fun (earlier, s) =>
  let (p, s) := node.poll transaction earlier s
  (p :: earlier, node.wait policy.period s)

/-- The first polls and the state of the node after them, if it is polled whatever it answers. -/
def history (s : σ) (polls : Nat) : List Polled × σ :=
  (node.pollAgain transaction policy)^[polls] ([], s)

variable {node transaction policy} {earlier : List Polled} {t : Tracker} {s : σ}

/-- A poll asks for the log if it wants to. -/
theorem isSome_log_poll :
    (node.poll transaction earlier s).1.log.isSome =
      wantsLog earlier (node.poll transaction earlier s).1.height := by
  rw [poll]
  obtain ⟨height, s⟩ := node.blockCount s
  cases hwants : wantsLog earlier height <;> simp [hwants]

/-- A tracker asks a node what it is asked in a poll. -/
theorem answers_eq (h : Tracker.Remembers earlier t) :
    node.answers transaction t s =
      ((node.poll transaction earlier s).1.answers, (node.poll transaction earlier s).2) := by
  rw [answers, poll]
  obtain ⟨height, s⟩ := node.blockCount s
  simp only [h.asksForLog_eq]
  cases wantsLog earlier height <;> rfl

/-- A poll that ends the waiting is the last one. -/
theorem watch_succ_of_ends (h : Tracker.Remembers earlier t) {event : Event}
    (hends : Ends policy.maxFailures ((node.poll transaction earlier s).1 :: earlier) event)
    (polls : Nat) :
    node.watch transaction policy (polls + 1) t s =
      (some event, (node.poll transaction earlier s).2) := by
  rw [watch, answers_eq h]
  simp only [(h.step_eq_ends_iff isSome_log_poll).2 hends]

/-- After any other poll the waiting goes on with what is remembered of it. -/
theorem watch_succ_of_not_ends (h : Tracker.Remembers earlier t)
    (hgoes : ∀ event,
      ¬ Ends policy.maxFailures ((node.poll transaction earlier s).1 :: earlier) event)
    (polls : Nat) :
    ∃ t', Tracker.Remembers ((node.poll transaction earlier s).1 :: earlier) t' ∧
      node.watch transaction policy (polls + 1) t s =
        node.watch transaction policy polls t'
          (node.wait policy.period (node.poll transaction earlier s).2) := by
  rw [watch, answers_eq h]
  cases hstep : t.step policy.maxFailures (node.poll transaction earlier s).1.answers with
  | ends event => exact absurd ((h.step_eq_ends_iff isSome_log_poll).1 hstep) (hgoes event)
  | goesOn t' => exact ⟨t', h.step isSome_log_poll hstep, by simp only [hstep]⟩

/-- The waiting goes on as long as no poll ends it. -/
theorem watch_eq_none (h : Tracker.Remembers earlier t) {polls : Nat}
    (hgoes : ∀ i < polls, ∀ event, ¬ Ends policy.maxFailures
      ((node.pollAgain transaction policy)^[i + 1] (earlier, s)).1 event) :
    node.watch transaction policy polls t s =
      (none, ((node.pollAgain transaction policy)^[polls] (earlier, s)).2) := by
  induction polls generalizing earlier t s with
  | zero => rfl
  | succ polls ih =>
    obtain ⟨t', ht', hwatch⟩ := watch_succ_of_not_ends h (hgoes 0 (by omega)) polls
    rw [hwatch]
    exact ih ht' fun i hi => hgoes (i + 1) (by omega)

/-- The first poll that ends the waiting is the last one. -/
theorem watch_eq_some (h : Tracker.Remembers earlier t) {i polls : Nat} (hi : i < polls)
    {event : Event}
    (hends : Ends policy.maxFailures
      ((node.pollAgain transaction policy)^[i + 1] (earlier, s)).1 event)
    (hgoes : ∀ j < i, ∀ event', ¬ Ends policy.maxFailures
      ((node.pollAgain transaction policy)^[j + 1] (earlier, s)).1 event') :
    node.watch transaction policy polls t s =
      (some event, (node.poll transaction
        ((node.pollAgain transaction policy)^[i] (earlier, s)).1
        ((node.pollAgain transaction policy)^[i] (earlier, s)).2).2) := by
  obtain ⟨polls, rfl⟩ : ∃ n, polls = n + 1 := ⟨polls - 1, by omega⟩
  induction i generalizing earlier t s polls with
  | zero => exact watch_succ_of_ends h hends polls
  | succ i ih =>
    obtain ⟨t', ht', hwatch⟩ := watch_succ_of_not_ends h (hgoes 0 (by omega)) polls
    rw [hwatch]
    obtain ⟨polls, rfl⟩ : ∃ n, polls = n + 1 := ⟨polls - 1, by omega⟩
    exact ih ht' hends (fun j hj => hgoes (j + 1) (by omega)) polls (by omega)

/-- A poll, counted from zero, is one that ends the waiting with an event. -/
def EndsAt (node : Node σ) (transaction : Hash256) (policy : PollPolicy) (s : σ) (i : Nat)
    (event : Event) : Prop :=
  Ends policy.maxFailures (node.history transaction policy s (i + 1)).1 event

/-- The waiting goes on as long as no poll ends it. The first poll that does is the last: its event
is the event of the waiting, however much longer one waits, and the node stays as it was left by the
answers to that poll. Without a limit on failures in a row, only a log ends the waiting. -/
theorem watch_ends (node : Node σ) (transaction : Hash256) (policy : PollPolicy) (s : σ) :
    (∀ polls, (∀ i < polls, ∀ event, ¬ node.EndsAt transaction policy s i event) →
      node.watch transaction policy polls .new s =
        (none, (node.history transaction policy s polls).2)) ∧
    (∀ i event, node.EndsAt transaction policy s i event →
      (∀ j < i, ∀ event', ¬ node.EndsAt transaction policy s j event') →
      ∀ polls, i < polls → node.watch transaction policy polls .new s =
        (some event, (node.poll transaction (node.history transaction policy s i).1
          (node.history transaction policy s i).2).2)) ∧
    (policy.maxFailures = none → ∀ i failure,
      ¬ node.EndsAt transaction policy s i (.error failure)) := by
  refine ⟨fun polls => watch_eq_none Tracker.remembers_new,
    fun i event hends hfirst polls hi => watch_eq_some Tracker.remembers_new hi hends hfirst,
    fun hnone i failure hends => ?_⟩
  obtain ⟨limit, hlimit⟩ := Ends.exists_limit hends
  rw [hnone] at hlimit
  cases hlimit

/-- A node that fails, says that it does not know the transaction, and then fails for good. -/
def failingNode : Rehearsal :=
  ⟨[.error Rehearsal.offline, .ok 5, .error Rehearsal.offline], [.ok none], [], 0, []⟩

/-- Two failures in a row end the waiting: not the first poll of such a node and the third, but the
third and the fourth. -/
theorem watch_ends_sample :
    (watch Rehearsal.node .zero ⟨1000, some 2⟩ 3 .new failingNode).1 = none ∧
    (watch Rehearsal.node .zero ⟨1000, some 2⟩ 9 .new failingNode).1 =
      some (.error Rehearsal.offline) := by
  obtain ⟨hgoes, hends, -⟩ := watch_ends Rehearsal.node .zero ⟨1000, some 2⟩ failingNode
  have hfirst : ∀ i < 3, ∀ event,
      ¬ EndsAt Rehearsal.node .zero ⟨1000, some 2⟩ failingNode i event := by
    intro i hi event h
    obtain rfl | rfl | rfl : i = 0 ∨ i = 1 ∨ i = 2 := by omega
    · exact not_ends_of_lt_limit (fun log hp => by cases hp) (by decide) event h
    · exact not_ends_of_lt_limit (fun log hp => by cases hp) (by decide) event h
    · exact not_ends_of_lt_limit (fun log hp => by cases hp) (by decide) event h
  have hlast : EndsAt Rehearsal.node .zero ⟨1000, some 2⟩ failingNode 3 (.error Rehearsal.offline) :=
    .failed rfl rfl (lastFailed_iff.2 (by decide))
  rw [hgoes 3 hfirst, hends 3 _ hlast hfirst 9 (by decide)]
  exact ⟨rfl, rfl⟩

end Node

end LedgerClient.Rpc
