import LedgerClient.Json.Value

/-!
# Values out of JSON

Readers take a JSON value apart. A record is written as an object, whose unknown members are passed
over and whose known members must not be repeated, or as an array of its fields in order, of which
the last ones may be absent. `Json.record?` brings both into one form: for each field the value that
is there for it, if any.
-/

namespace LedgerClient.Json

/-- The text that a value is. -/
def text? : Json → Option String
  | .string s => some s
  | _ => none

/-- The truth value that a value is. -/
def bool? : Json → Option Bool
  | .bool b => some b
  | _ => none

/-- The whole number that a value is, if it lies within bounds. -/
def integerIn? (low high : Int) : Json → Option Int
  | .integer n => if low ≤ n ∧ n ≤ high then some n else none
  | _ => none

/-- The natural number that a value is, if it is not above a bound. -/
def natural? (high : Nat) (v : Json) : Option Nat := (integerIn? 0 high v).map Int.toNat

/-- The items of an array, each read in the same way. -/
def list? {α : Type} (item? : Json → Option α) : Json → Option (List α)
  | .array items => items.mapM item?
  | _ => none

/-- A value that may be null. -/
def nullable? {α : Type} (read? : Json → Option α) : Json → Option (Option α)
  | .null => some none
  | v => (read? v).map some

/-- A choice by name: the name itself, or an object with the name before null. -/
def choice? {α : Type} (ofName? : String → Option α) : Json → Option α
  | .string name => ofName? name
  | .object [(name, .null)] => ofName? name
  | _ => none

/-- The value of the one member with one of the given names, if there is one; more than one is an
error. -/
def member? (names : List String) (members : List (String × Json)) : Option (Option Json) :=
  match members.filter fun member => names.contains member.1 with
  | [] => some none
  | [member] => some (some member.2)
  | _ => none

/-- The values that are there for the fields of a record, each with its names. -/
def record? (fields : List (List String)) : Json → Option (List (Option Json))
  | .object members => fields.mapM fun names => member? names members
  | .array items =>
    if fields.length < items.length then none
    else some (items.map some ++ List.replicate (fields.length - items.length) none)
  | _ => none

/-- The value of a field that has to be there. -/
def required? {α : Type} (read? : Json → Option α) (field : Option Json) : Option α :=
  field.bind read?

/-- The value of a field that has a default. -/
def optional? {α : Type} (default : α) (read? : Json → Option α) : Option Json → Option α
  | none => some default
  | some v => read? v

/-- An object without the members that are not there. -/
def present (members : List (String × Option Json)) : Json :=
  .object (members.filterMap fun (name, value) => value.map (Prod.mk name))

end LedgerClient.Json
