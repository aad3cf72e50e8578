import LedgerClient.Proofs.Text.Case
import LedgerClient.Rpc.Client

/-!
# What a response says of a transaction

A text is a response if it is an envelope: its members are there once at most and can be read, and a
result or error that is null is as good as none (`decodes_iff_isEnvelope`). The answer to the
question for what is recorded for a transaction is told by what the envelope holds (`Classified`).
An error comes before a result; by its words or by its code it may say that the transaction is not
known, and that is no failure. What the JSON library says of a text that is no envelope is searched
for the same words (`Reply.applicationLog_of_malformed`).
-/

namespace LedgerClient

/-- What the value of a member gives: what is read of it, or nothing if it is absent or null. -/
inductive Json.Gives {α : Type} (read? : Json → Option α) : Option Json → Option α → Prop
  | absent : Gives read? none none
  | null : Gives read? (some .null) none
  | value {v : Json} {x : α} : v ≠ .null → read? v = some x → Gives read? (some v) (some x)

/-- A member that may be absent or null is read as what its value gives. -/
theorem Json.optional?_nullable?_eq_some_iff {α : Type} {read? : Json → Option α}
    {member : Option Json} {x : Option α} :
    optional? none (nullable? read?) member = some x ↔ Gives read? member x := by
  constructor
  · intro h
    rcases member with _ | v
    · cases h
      exact .absent
    by_cases hnull : v = .null
    · subst hnull
      cases h
      exact .null
    · rw [optional?, nullable?] at h
      · obtain ⟨y, hy, rfl⟩ := Option.map_eq_some_iff.1 h
        exact .value hnull hy
      · exact hnull
  · rintro (_ | _ | ⟨hnull, hread⟩)
    · rfl
    · rfl
    · rw [optional?, nullable?, hread]
      · rfl
      · exact hnull

/-- The value of a member with a default can be read if it is readable where it is there. -/
theorem Json.isSome_optional?_iff {α : Type} {default : α} {read? : Json → Option α}
    {member : Option Json} :
    (optional? default read? member).isSome ↔ ∀ v ∈ member, (read? v).isSome := by
  cases member <;> simp [optional?]

namespace Rpc

/-! ## Envelopes -/

/-- A text holds a response with a result and a refusal, if it has them: its members are there once
at most and each of them can be read. -/
inductive IsEnvelope (text : String) (result : Option Json) (refusal : Option Refusal) : Prop
  | intro {v : Json} {id version result' error : Option Json} :
    Json.parse? text = some v →
    Json.record? Response.fields v = some [id, version, result', error] →
    (∀ w ∈ id, (Json.settle? w).isSome) →
    (∀ w ∈ version, (Json.text? w).isSome) →
    Json.Gives Json.settle? result' result →
    Json.Gives Refusal.ofJson? error refusal → IsEnvelope text result refusal

/-- A value is read as a response if its members are, each in its own way. -/
theorem Response.ofJson?_eq_some_iff {v : Json} {r : Response} :
    ofJson? v = some r ↔ ∃ id version result error,
      Json.record? fields v = some [id, version, result, error] ∧
        Json.optional? .null Json.settle? id = some r.id ∧
        Json.optional? "" Json.text? version = some r.version ∧
        Json.Gives Json.settle? result r.result ∧ Json.Gives Refusal.ofJson? error r.refusal := by
  simp only [← Json.optional?_nullable?_eq_some_iff]
  rw [ofJson?]
  constructor
  · intro h
    obtain ⟨members, hmembers, h⟩ := Option.bind_eq_some_iff.1 h
    split at h
    · obtain ⟨id, hid, h⟩ := Option.bind_eq_some_iff.1 h
      obtain ⟨version, hversion, h⟩ := Option.bind_eq_some_iff.1 h
      obtain ⟨result, hresult, h⟩ := Option.bind_eq_some_iff.1 h
      obtain ⟨refusal, hrefusal, h⟩ := Option.bind_eq_some_iff.1 h
      cases h
      exact ⟨_, _, _, _, hmembers, hid, hversion, hresult, hrefusal⟩
    · cases h
  · rintro ⟨id, version, result, error, hmembers, hid, hversion, hresult, herror⟩
    simp only [hmembers, hid, hversion, hresult, herror, Option.bind_eq_bind, Option.bind_some,
      Option.pure_def]

/-- A text is decoded if it is an envelope, and then to what that holds. -/
theorem decodes_iff_isEnvelope {text : String} {result : Option Json} {refusal : Option Refusal} :
    (∃ r, (Json.parse? text).bind Response.ofJson? = some r ∧
      r.result = result ∧ r.refusal = refusal) ↔ IsEnvelope text result refusal := by
  constructor
  · rintro ⟨r, h, rfl, rfl⟩
    obtain ⟨v, hparse, hread⟩ := Option.bind_eq_some_iff.1 h
    obtain ⟨id, version, result, error, hmembers, hid, hversion, hresult, herror⟩ :=
      Response.ofJson?_eq_some_iff.1 hread
    exact .intro hparse hmembers (Json.isSome_optional?_iff.1 (Option.isSome_of_eq_some hid))
      (Json.isSome_optional?_iff.1 (Option.isSome_of_eq_some hversion)) hresult herror
  · rintro ⟨hparse, hmembers, hid, hversion, hresult, herror⟩
    obtain ⟨id, hid⟩ := Option.isSome_iff_exists.1 (Json.isSome_optional?_iff.2 hid)
    obtain ⟨version, hversion⟩ := Option.isSome_iff_exists.1 (Json.isSome_optional?_iff.2 hversion)
    refine ⟨⟨id, version, result, refusal⟩, ?_, rfl, rfl⟩
    rw [hparse, Option.bind_some, Response.ofJson?_eq_some_iff]
    exact ⟨_, _, _, _, hmembers, hid, hversion, hresult, herror⟩

/-! ## What the node said -/

/-- The words by which a node says that it does not know a transaction. -/
def unknownWords : String := "unknown transaction"

/-- The failure is that of a node which says that it does not know what it was asked about: by the
code that stands for this, or by the words, in any case. -/
def Failure.SaysUnknown (f : Failure) : Prop :=
  f.code = -100 ∨ ∃ words, words <:+: f.message.toList ∧ words.map Char.toLower = unknownWords.toList

/-- The check for an unknown transaction finds the code and the words. -/
theorem Failure.isUnknownItem_iff {f : Failure} : f.isUnknownItem = true ↔ f.SaysUnknown := by
  rw [isUnknownItem, Bool.or_eq_true, beq_iff_eq, Text.contains_toLowerAscii_iff]
  rfl

/-- The failure that an error of a node is. -/
def Refusal.failure (r : Refusal) : Failure := ⟨r.code, r.message⟩

namespace Reply

variable {text method : String} {result : Option Json} {refusal : Option Refusal}
  {explain : String → String}

/-- The result that an envelope gives to a method: an error comes before it. -/
def given (method : String) : Option Refusal → Option Json → Except Failure Json
  | some refusal, _ => .error refusal.failure
  | none, some v => .ok v
  | none, none => .error (.internal (method ++ ": no result returned"))

/-- The result that a client takes from an envelope is the one that the envelope gives. -/
theorem result_of_envelope (h : IsEnvelope text result refusal) :
    (body text).result method explain = given method refusal result := by
  obtain ⟨⟨id, version, result, refusal⟩, hdecodes, rfl, rfl⟩ := decodes_iff_isEnvelope.2 h
  rw [Reply.result, response, hdecodes]
  rcases refusal with _ | refusal <;> rcases result with _ | v <;> rfl

end Reply

/-- The answer to the question for what is recorded, told by the result and the refusal in the
node's response. -/
structure Classified (result : Option Json) (refusal : Option Refusal)
    (answer : Except Failure (Option ApplicationLog)) : Prop where
  /-- There is nothing yet if the node says that it does not know the transaction, and only then. -/
  unknown_iff : answer = .ok none ↔ ∃ r, refusal = some r ∧ r.failure.SaysUnknown
  /-- Any other error is that of the node, with its code and its message, and a result beside it
  does not matter. -/
  refused {r : Refusal} : refusal = some r → ¬ r.failure.SaysUnknown → answer = .error r.failure
  /-- A response with neither is a failure on the way. -/
  absent : refusal = none → result = none →
    answer = .error (.internal (Reply.applicationLogMethod ++ ": no result returned"))
  /-- A result is the log, or a failure on the way if it is none. -/
  decoded {v : Json} : refusal = none → result = some v →
    (∃ log, ApplicationLog.ofJson? v = some log ∧ answer = .ok (some log)) ∨
      ApplicationLog.ofJson? v = none ∧ ∃ message, answer = .error (.internal message)

namespace Reply

variable {text : String} {result : Option Json} {refusal : Option Refusal}
  {explain : String → String}

/-- An error of the node is the answer, unless it says that the node knows nothing of the matter. -/
theorem applicationLog_of_refusal {r : Refusal} (h : IsEnvelope text result (some r)) :
    (body text).applicationLog explain =
      if r.failure.isUnknownItem then .ok none else .error r.failure := by
  rw [applicationLog, result_of_envelope h]
  rfl

/-- Without an error the result is read as a log. -/
theorem applicationLog_of_value {v : Json} (h : IsEnvelope text (some v) none) :
    (body text).applicationLog explain =
      (decode applicationLogMethod ApplicationLog.ofJson? v).map some := by
  rw [applicationLog, result_of_envelope h]
  rfl

/-- An envelope that holds neither is a failure on the way. -/
theorem applicationLog_of_nothing (h : IsEnvelope text none none) :
    (body text).applicationLog explain =
      .error (.internal (applicationLogMethod ++ ": no result returned")) := by
  rw [applicationLog, result_of_envelope h]
  exact if_neg (by decide)

/-- A text that is no response is a failure with what the JSON library says of it, unless that holds
the words of a node that does not know a transaction: then it is taken for such a node's answer. -/
theorem applicationLog_of_malformed (h : (Json.parse? text).bind Response.ofJson? = none) :
    ((body text).applicationLog explain = .ok none ↔ (malformed (explain text)).SaysUnknown) ∧
      (¬ (malformed (explain text)).SaysUnknown →
        (body text).applicationLog explain = .error (malformed (explain text))) := by
  have hanswer : (body text).applicationLog explain =
      if (malformed (explain text)).isUnknownItem then .ok none
      else .error (malformed (explain text)) := by
    rw [applicationLog, Reply.result, response, h]
    rfl
  rw [hanswer, ← Failure.isUnknownItem_iff]
  split
  · next hunknown => exact ⟨iff_of_true rfl hunknown, absurd hunknown⟩
  · next hknown => exact ⟨iff_of_false nofun hknown, fun _ => rfl⟩

/-- Whatever the node responds, the answer is told by what that holds. -/
theorem classified_of_envelope (h : IsEnvelope text result refusal) :
    Classified result refusal ((body text).applicationLog explain) := by
  rcases refusal with _ | r
  · have hnone : ¬ ∃ r : Refusal, none = some r ∧ r.failure.SaysUnknown := by rintro ⟨_, ⟨⟩, _⟩
    rcases result with _ | v
    · rw [applicationLog_of_nothing h]
      exact ⟨iff_of_false nofun hnone, nofun, fun _ _ => rfl, nofun⟩
    · rw [applicationLog_of_value h, decode]
      cases hlog : ApplicationLog.ofJson? v with
      | none =>
        refine ⟨iff_of_false nofun hnone, nofun, nofun, ?_⟩
        rintro _ - ⟨⟩
        exact .inr ⟨hlog, _, rfl⟩
      | some log =>
        refine ⟨iff_of_false nofun hnone, nofun, nofun, ?_⟩
        rintro _ - ⟨⟩
        exact .inl ⟨log, hlog, rfl⟩
  · rw [applicationLog_of_refusal h]
    by_cases hunknown : r.failure.SaysUnknown
    · rw [if_pos (Failure.isUnknownItem_iff.2 hunknown)]
      refine ⟨iff_of_true rfl ⟨r, rfl, hunknown⟩, ?_, nofun, nofun⟩
      rintro _ ⟨⟩ hknown
      exact absurd hunknown hknown
    · rw [if_neg (mt Failure.isUnknownItem_iff.1 hunknown)]
      refine ⟨iff_of_false nofun ?_, ?_, nofun, nofun⟩
      · rintro ⟨_, ⟨⟩, h⟩
        exact hunknown h
      · rintro _ ⟨⟩ -
        rfl

end Reply

end Rpc

end LedgerClient
