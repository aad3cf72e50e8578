import LedgerClient.Wire.Emission

/-!
# Operations that write

Operations in turn write what each of them writes, one after another, if none of them fails
(`Emission.all_bytes`), and fail if one of them does (`Emission.all_failure_eq_none_iff`).
-/

namespace LedgerClient

namespace Wire.Emission

variable {ε : Type}

/-- Two operations in turn do not fail if neither does. -/
theorem andThen_failure_eq_none_iff {first second : Emission ε} :
    (first.andThen second).failure = none ↔ first.failure = none ∧ second.failure = none := by
  rw [andThen]
  cases hfirst : first.failure with
  | none => exact (and_iff_right rfl).symm
  | some e =>
    rw [hfirst]
    exact iff_of_false nofun fun h => nomatch h.1

/-- What two operations put out if the first does not fail. -/
theorem andThen_bytes {first : Emission ε} (h : first.failure = none) (second : Emission ε) :
    (first.andThen second).bytes = first.bytes ++ second.bytes := by
  rw [andThen, h]

@[simp] theorem empty_andThen (e : Emission ε) : empty.andThen e = e := rfl

@[simp] theorem andThen_empty (e : Emission ε) : e.andThen empty = e := by
  obtain ⟨bytes, failure⟩ := e
  cases failure with
  | some err => rfl
  | none => simp [andThen, empty, ofBytes]

@[simp] theorem fail_andThen (err : ε) (e : Emission ε) : (fail err).andThen e = fail err := rfl

/-- Emissions one after another may be taken in any groups. -/
theorem andThen_assoc (first second third : Emission ε) :
    (first.andThen second).andThen third = first.andThen (second.andThen third) := by
  cases hfirst : first.failure with
  | some e => simp [andThen, hfirst]
  | none =>
    cases hsecond : second.failure with
    | some e => simp [andThen, hfirst, hsecond]
    | none => simp [andThen, hfirst, hsecond]

@[simp] theorem all_nil : all [] = (empty : Emission ε) := rfl

@[simp] theorem all_cons (e : Emission ε) (es : List (Emission ε)) :
    all (e :: es) = e.andThen (all es) := rfl

/-- Operations in turn are some of them and then the others. -/
@[simp] theorem all_append (es fs : List (Emission ε)) :
    all (es ++ fs) = (all es).andThen (all fs) := by
  induction es with
  | nil => simp
  | cons e es ih => simp [ih, andThen_assoc]

/-- Operations in turn do not fail if none of them does. -/
theorem all_failure_eq_none_iff {es : List (Emission ε)} :
    (all es).failure = none ↔ ∀ e ∈ es, e.failure = none := by
  induction es with
  | nil => exact iff_of_true rfl (List.forall_mem_nil _)
  | cons e es ih =>
    rw [List.forall_mem_cons, ← ih]
    exact andThen_failure_eq_none_iff

/-- What operations in turn put out if none of them fails. -/
theorem all_bytes {es : List (Emission ε)} (h : ∀ e ∈ es, e.failure = none) :
    (all es).bytes = es.flatMap bytes := by
  induction es with
  | nil => rfl
  | cons e es ih =>
    obtain ⟨he, hes⟩ := List.forall_mem_cons.1 h
    rw [List.flatMap_cons, ← ih hes]
    exact andThen_bytes he _

/-- An emission gives its bytes if it did not fail. -/
theorem toExcept_eq_ok_iff {e : Emission ε} {bs : Bytes} :
    e.toExcept = .ok bs ↔ e.failure = none ∧ e.bytes = bs := by
  rw [toExcept]
  cases e.failure with
  | none => exact ⟨fun h => ⟨rfl, Except.ok.inj h⟩, fun h => congrArg _ h.2⟩
  | some err => exact iff_of_false nofun fun h => nomatch h.1

/-- Renaming the error of an emission changes nothing where there is none. -/
theorem mapError_toExcept_eq_ok_iff {ε' : Type} {f : ε → ε'} {e : Emission ε} {bs : Bytes} :
    (e.mapError f).toExcept = .ok bs ↔ e.failure = none ∧ e.bytes = bs := by
  rw [toExcept_eq_ok_iff, mapError, Option.map_eq_none_iff]

/-- The bytes that are put out of a result that is not an error. -/
theorem ofExcept_failure_eq_none_iff {x : Except ε Bytes} :
    (ofExcept x).failure = none ↔ x = .ok (ofExcept x).bytes := by
  cases x with
  | ok bs => exact iff_of_true rfl rfl
  | error e => exact iff_of_false nofun nofun

end Wire.Emission

end LedgerClient
