import LedgerClient.Json.Value

/-!
# Whole values

A value is whole if each of its parts is readable and no object in it has two members of one name.
These are the values that a reading as a whole leaves as they are (`Whole.settle?_eq`), and the only
ones that it gives (`whole_of_settle?`).
-/

namespace LedgerClient.Json

/-- A value without unreadable parts and without repeated names. -/
inductive Whole : Json → Prop where
  | null : Whole .null
  | bool (b : Bool) : Whole (.bool b)
  | integer (n : Int) : Whole (.integer n)
  | double (x : Binary64) : Whole (.double x)
  | string (s : String) : Whole (.string s)
  | array {items : List Json} (h : ∀ v ∈ items, Whole v) : Whole (.array items)
  | object {members : List (String × Json)} (hnames : (members.map Prod.fst).Nodup)
      (h : ∀ m ∈ members, Whole m.2) : Whole (.object members)

/-! ## Members with a new one in front -/

variable {name : String} {value : Json} {rest : List (String × Json)}

/-- A member of a new name is put in front of the others. -/
theorem putFirst_of_notMem (h : name ∉ rest.map Prod.fst) :
    putFirst name value rest = (name, value) :: rest := by
  have hnone : rest.find? (fun member => member.1 == name) = none := by
    refine List.find?_eq_none.2 fun m hm hname => h ?_
    exact List.mem_map.2 ⟨m, hm, beq_iff_eq.1 hname⟩
  rw [putFirst, hnone]

/-- The member in front has its name alone, and its value is the new one or one that was there. -/
theorem exists_putFirst (name : String) (value : Json) (rest : List (String × Json)) :
    ∃ w others, putFirst name value rest = (name, w) :: others ∧ others.Sublist rest ∧
      name ∉ others.map Prod.fst ∧ (w = value ∨ ∃ m ∈ rest, m.2 = w) := by
  rw [putFirst]
  split
  · next hnone =>
    refine ⟨value, rest, rfl, .refl _, ?_, .inl rfl⟩
    intro hmem
    obtain ⟨m, hm, hname⟩ := List.mem_map.1 hmem
    exact List.find?_eq_none.1 hnone m hm (beq_iff_eq.2 hname)
  · next later hlater =>
    have hmem : later ∈ rest := List.mem_of_find?_eq_some hlater
    refine ⟨later.2, _, rfl, List.filter_sublist, ?_, .inr ⟨later, hmem, rfl⟩⟩
    intro hmem
    obtain ⟨m, hm, hname⟩ := List.mem_map.1 hmem
    exact bne_iff_ne.1 (List.mem_filter.1 hm).2 hname

/-! ## Reading as a whole -/

/-- A list is read as it is if each of its values is. -/
theorem settleItems?_eq {items : List Json} (h : ∀ v ∈ items, settle? v = some v) :
    settleItems? items = some items := by
  induction items with
  | nil => rfl
  | cons v items ih =>
    obtain ⟨hv, hitems⟩ := List.forall_mem_cons.1 h
    rw [settleItems?, hv, ih hitems]

/-- So are the members of an object, if their names are different. -/
theorem settleMembers?_eq {members : List (String × Json)} (hnames : (members.map Prod.fst).Nodup)
    (h : ∀ m ∈ members, settle? m.2 = some m.2) : settleMembers? members = some members := by
  induction members with
  | nil => rfl
  | cons m members ih =>
    obtain ⟨hm, hmembers⟩ := List.forall_mem_cons.1 h
    obtain ⟨hfresh, hnames⟩ := List.nodup_cons.1 hnames
    rw [settleMembers?, hm, ih hnames hmembers]
    exact congrArg some (putFirst_of_notMem hfresh)

/-- A whole value is read as it is. -/
theorem Whole.settle?_eq {v : Json} (h : Whole v) : settle? v = some v := by
  induction h with
  | null | bool | integer | double | string => rfl
  | array _ ih => rw [settle?, settleItems?_eq ih, Option.map_some]
  | object hnames _ ih => rw [settle?, settleMembers?_eq hnames ih, Option.map_some]

mutual

/-- What a value is read as is whole. -/
theorem whole_of_settle? {v w : Json} (h : settle? v = some w) : Whole w := by
  cases v with
  | null => cases h; exact .null
  | bool => cases h; exact .bool _
  | integer => cases h; exact .integer _
  | double => cases h; exact .double _
  | string => cases h; exact .string _
  | array items =>
    rw [settle?] at h
    obtain ⟨ws, hws, rfl⟩ := Option.map_eq_some_iff.1 h
    exact .array (whole_of_settleItems? hws)
  | object members =>
    rw [settle?] at h
    obtain ⟨ws, hws, rfl⟩ := Option.map_eq_some_iff.1 h
    obtain ⟨hnames, hwhole⟩ := whole_of_settleMembers? hws
    exact .object hnames hwhole
  | unreadable => cases h

/-- What the values of a list are read as is whole. -/
theorem whole_of_settleItems? {items ws : List Json} (h : settleItems? items = some ws) :
    ∀ w ∈ ws, Whole w := by
  cases items with
  | nil =>
    cases h
    exact nofun
  | cons v items =>
    rw [settleItems?] at h
    split at h
    · next hv hitems =>
      cases h
      exact List.forall_mem_cons.2 ⟨whole_of_settle? hv, whole_of_settleItems? hitems⟩
    · cases h

/-- So is what the members of an object are read as, and their names are different. -/
theorem whole_of_settleMembers? {members ws : List (String × Json)}
    (h : settleMembers? members = some ws) :
    (ws.map Prod.fst).Nodup ∧ ∀ m ∈ ws, Whole m.2 := by
  cases members with
  | nil =>
    cases h
    exact ⟨List.nodup_nil, nofun⟩
  | cons m members =>
    rw [settleMembers?] at h
    split at h
    · next x xs hx hxs =>
      obtain ⟨hnames, hwhole⟩ := whole_of_settleMembers? hxs
      obtain ⟨w, others, hput, hsub, hfresh, hw⟩ := exists_putFirst m.1 x xs
      rw [hput] at h
      cases h
      refine ⟨List.nodup_cons.2 ⟨hfresh, hnames.sublist (hsub.map _)⟩, ?_⟩
      refine List.forall_mem_cons.2 ⟨?_, fun m' hm' => hwhole m' (hsub.subset hm')⟩
      -- A later member of the same name has given its value to the one in front.
      obtain rfl | ⟨m', hm', rfl⟩ := hw
      · exact whole_of_settle? hx
      · exact hwhole m' hm'
    · cases h

end

end LedgerClient.Json
