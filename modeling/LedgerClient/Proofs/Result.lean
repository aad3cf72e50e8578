/-!
# Results that may be errors

A computation in steps has a result exactly if each of its steps has one, and avoids an error
(`Except.Avoids`) if each of its steps does.
-/

namespace Except

variable {ε ε' α β : Type}

/-- Two steps have a result if the first has one and the second has one for it. -/
theorem bind_eq_ok_iff {x : Except ε α} {f : α → Except ε β} {b : β} :
    x >>= f = .ok b ↔ ∃ a, x = .ok a ∧ f a = .ok b := by
  cases x with
  | error e =>
    constructor
    · rintro ⟨⟩
    · rintro ⟨_, ⟨⟩, _⟩
  | ok a =>
    constructor
    · exact fun h => ⟨a, rfl, h⟩
    · rintro ⟨_, ⟨⟩, h⟩
      exact h

/-- Renaming errors changes no result. -/
theorem mapError_eq_ok_iff {f : ε → ε'} {x : Except ε α} {a : α} :
    x.mapError f = .ok a ↔ x = .ok a := by
  cases x with
  | error e =>
    constructor
    · rintro ⟨⟩
    · rintro ⟨⟩
  | ok b =>
    constructor
    · rintro ⟨⟩
      rfl
    · rintro ⟨⟩
      rfl

/-- A computation that is known to succeed has a result. -/
theorem exists_of_isOk {x : Except ε α} (h : x.isOk = true) : ∃ a, x = .ok a := by
  cases x with
  | error e => cases h
  | ok a => exact ⟨a, rfl⟩

/-! ## Errors that do not arise -/

/-- No error that the computation ends with has the property. -/
def Avoids (x : Except ε α) (P : ε → Prop) : Prop := ∀ e, x = .error e → ¬ P e

/-- A result is no error. -/
theorem avoids_ok {a : α} {P : ε → Prop} : (Except.ok a : Except ε α).Avoids P := nofun

/-- An error is avoided that does not have the property. -/
theorem avoids_error {e : ε} {P : ε → Prop} (h : ¬ P e) :
    (Except.error e : Except ε α).Avoids P := by
  rintro _ ⟨⟩
  exact h

/-- Two steps avoid what both avoid. -/
theorem Avoids.bind {x : Except ε α} {f : α → Except ε β} {P : ε → Prop} (hx : x.Avoids P)
    (hf : ∀ a, x = .ok a → (f a).Avoids P) : (x >>= f).Avoids P := by
  cases x with
  | error e => exact avoids_error (hx e rfl)
  | ok a => exact hf a rfl

/-- Renamed errors are avoided if those before are that would be named so. -/
theorem Avoids.mapError {x : Except ε α} {f : ε → ε'} {P : ε' → Prop}
    (h : x.Avoids fun e => P (f e)) : (x.mapError f).Avoids P := by
  cases x with
  | error e => exact avoids_error (h e rfl)
  | ok a => exact avoids_ok

end Except
