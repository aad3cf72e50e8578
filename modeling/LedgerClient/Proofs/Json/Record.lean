import LedgerClient.Json.Record
import LedgerClient.Proofs.Json.Whole
import Mathlib.Data.List.Nodup

/-!
# Values that are read back from their forms

A form and a reader are lawful if what is written is whole and is read back, and only what has a
form is read (`Lawful`). Lists of such values have the same laws (`Lawful.list`). A record has them
if its fields do: of the members that are written for it, the reader finds each under its field
(`record_present`), and those that are absent give the default.
-/

namespace LedgerClient.Json

variable {α : Type} {toJson : α → Json} {ofJson? : Json → Option α} {Valid : α → Prop}

/-- The laws of a form and of the reader of it, for the values that have a form. -/
structure Lawful (toJson : α → Json) (ofJson? : Json → Option α) (Valid : α → Prop) : Prop where
  /-- A form is a value without unreadable parts and without repeated names. -/
  whole {x : α} : Valid x → (toJson x).Whole
  /-- What is read of a form is the value itself. -/
  read {x : α} : Valid x → ofJson? (toJson x) = some x
  /-- Only what has a form is read. -/
  valid {v : Json} {x : α} : ofJson? v = some x → Valid x

/-- A whole value is its own form. -/
theorem lawful_settle? : Lawful id settle? Whole where
  whole h := h
  read h := h.settle?_eq
  valid h := whole_of_settle? h

/-- A value that is shown as a text has the laws if it is read back from that text. -/
theorem lawful_of_text {toText : α → String} (h : ∀ x, ofJson? (string (toText x)) = some x) :
    Lawful (fun x => string (toText x)) ofJson? fun _ => True where
  whole _ := .string _
  read _ := h _
  valid _ := trivial

/-! ## Lists -/

/-- A list is read if each of its items is, and to what these are read as. -/
theorem mapM_eq_some_iff {β : Type} {f : α → Option β} {xs : List α} {ys : List β} :
    xs.mapM f = some ys ↔ xs.map f = ys.map some := by
  induction xs generalizing ys with
  | nil =>
    rw [List.mapM_nil, List.map_nil, List.nil_eq, List.map_eq_nil_iff]
    exact Option.some_inj.trans eq_comm
  | cons x xs ih =>
    rw [List.mapM_cons, List.map_cons]
    constructor
    · intro h
      obtain ⟨y, hy, h⟩ := Option.bind_eq_some_iff.1 h
      obtain ⟨ys, hys, h⟩ := Option.bind_eq_some_iff.1 h
      cases h
      rw [hy, ih.1 hys, List.map_cons]
    · intro h
      obtain ⟨y, ys, rfl, hy, hys⟩ := List.map_eq_cons_iff.1 h.symm
      rw [← hy, ih.2 hys.symm]
      rfl

/-- The items of a list keep their order. -/
theorem Lawful.list (h : Lawful toJson ofJson? Valid) :
    Lawful (fun xs => array (xs.map toJson)) (list? ofJson?) fun xs => ∀ x ∈ xs, Valid x where
  whole hxs := .array (List.forall_mem_map.2 fun x hx => h.whole (hxs x hx))
  read hxs := by
    rw [list?, mapM_eq_some_iff, List.map_map]
    exact List.map_congr_left fun x hx => h.read (hxs x hx)
  valid {v xs} hlist x hx := by
    cases v with
    | array items =>
      have hitem : some x ∈ items.map ofJson? := by
        rw [mapM_eq_some_iff.1 hlist]
        exact List.mem_map_of_mem hx
      obtain ⟨_, -, hread⟩ := List.mem_map.1 hitem
      exact h.valid hread
    | _ => cases hlist

/-! ## Fields -/

@[simp] theorem required?_some {v : Json} : required? ofJson? (some v) = ofJson? v := rfl

@[simp] theorem optional?_some {default : α} {v : Json} :
    optional? default ofJson? (some v) = ofJson? v := rfl

/-- What is read from a field that must be there is valid. -/
theorem Lawful.valid_of_required? (h : Lawful toJson ofJson? Valid) {field : Option Json} {x : α}
    (hread : required? ofJson? field = some x) : Valid x := by
  obtain ⟨_, -, hread⟩ := Option.bind_eq_some_iff.1 hread
  exact h.valid hread

/-- So is what is read from one that may be left out, if the default is. -/
theorem Lawful.valid_of_optional? (h : Lawful toJson ofJson? Valid) {default : α}
    (hdefault : Valid default) {field : Option Json} {x : α}
    (hread : optional? default ofJson? field = some x) : Valid x := by
  cases field with
  | none =>
    cases hread
    exact hdefault
  | some v => exact h.valid hread

/-! ## Records -/

section

variable {names : List String} {m : String × Json} {rest : List (String × Json)}

/-- Members of other names leave a field out. -/
theorem member?_eq_none (h : ∀ m ∈ rest, m.1 ∉ names) : member? names rest = some none := by
  rw [member?, List.filter_eq_nil_iff.2 (by simpa using h)]

/-- A member of another name is passed over. -/
theorem member?_cons_of_notMem (h : m.1 ∉ names) :
    member? names (m :: rest) = member? names rest := by
  rw [member?, List.filter_cons_of_neg (by simpa using h), ← member?]

/-- The value of a field is that of the one member with a name of it. -/
theorem member?_cons_of_mem (hm : m.1 ∈ names) (h : ∀ m ∈ rest, m.1 ∉ names) :
    member? names (m :: rest) = some (some m.2) := by
  rw [member?, List.filter_cons_of_pos (by simpa using hm),
    List.filter_eq_nil_iff.2 (by simpa using h)]

end

/-- The members that are there. -/
def visible (members : List (String × Option Json)) : List (String × Json) :=
  members.filterMap fun (name, value) => value.map (Prod.mk name)

variable {members : List (String × Option Json)} {fields : List (List String)}

@[simp] theorem visible_cons_none {name : String} :
    visible ((name, none) :: members) = visible members := rfl

@[simp] theorem visible_cons_some {name : String} {v : Json} :
    visible ((name, some v) :: members) = (name, v) :: visible members := rfl

/-- A member that is there was given a value. -/
theorem mem_of_mem_visible {m : String × Json} (h : m ∈ visible members) :
    (m.1, some m.2) ∈ members := by
  obtain ⟨⟨name, value⟩, hmember, hvalue⟩ := List.mem_filterMap.1 h
  obtain ⟨v, rfl, rfl⟩ := Option.map_eq_some_iff.1 hvalue
  exact hmember

/-- The members that are there keep their order. -/
theorem sublist_visible : ((visible members).map Prod.fst).Sublist (members.map Prod.fst) := by
  induction members with
  | nil => exact .refl _
  | cons m members ih =>
    obtain ⟨name, _ | v⟩ := m
    · exact ih.cons name
    · exact ih.cons_cons name

/-- Each member is written under one of the names of its field. -/
def Named (members : List (String × Option Json)) (fields : List (List String)) : Prop :=
  List.Forall₂ (fun m names => m.1 ∈ names) members fields

/-- Every member has a name of some field. -/
theorem Named.exists_field (h : Named members fields) {m : String × Option Json}
    (hm : m ∈ members) : ∃ names ∈ fields, m.1 ∈ names := by
  induction h with
  | nil => cases hm
  | cons hname _ ih =>
    cases hm with
    | head => exact ⟨_, .head _, hname⟩
    | tail _ hm =>
      obtain ⟨names, hfield, hmem⟩ := ih hm
      exact ⟨names, .tail _ hfield, hmem⟩

/-- If no two fields share a name, then no two members have the same. -/
theorem Named.nodup (h : Named members fields) (hdisjoint : fields.Pairwise List.Disjoint) :
    (members.map Prod.fst).Nodup := by
  induction h with
  | nil => exact List.nodup_nil
  | @cons m names members fields hm h ih =>
    obtain ⟨hapart, hdisjoint⟩ := List.pairwise_cons.1 hdisjoint
    refine List.nodup_cons.2 ⟨fun hmem => ?_, ih hdisjoint⟩
    obtain ⟨m', hm', hname⟩ := List.mem_map.1 hmem
    obtain ⟨names', hfield, hmem'⟩ := Named.exists_field h hm'
    exact hapart names' hfield (hname ▸ hm) hmem'

/-- If no two fields share a name, then each member that is there is found under its field, and for
a field whose member is absent nothing is. -/
theorem Named.mapM_member? (h : Named members fields)
    (hdisjoint : fields.Pairwise List.Disjoint) :
    fields.mapM (fun names => member? names (visible members)) =
      some (members.map Prod.snd) := by
  rw [mapM_eq_some_iff]
  induction h with
  | nil => rfl
  | @cons m names members fields hm h ih =>
    obtain ⟨hapart, hdisjoint⟩ := List.pairwise_cons.1 hdisjoint
    -- The first field is that of the first member only, and this member is in no later field.
    have hothers : ∀ m ∈ visible members, m.1 ∉ names := by
      intro m hm hmem
      obtain ⟨names', hfield, hmem'⟩ := Named.exists_field h (mem_of_mem_visible hm)
      exact hapart names' hfield hmem hmem'
    have hskip : ∀ names' ∈ fields, m.1 ∉ names' := fun names' hfield => hapart names' hfield hm
    obtain ⟨name, _ | v⟩ := m
    · rw [visible_cons_none, List.map_cons, member?_eq_none hothers, ih hdisjoint]
      rfl
    · rw [visible_cons_some, List.map_cons, member?_cons_of_mem hm hothers,
        List.map_congr_left fun names' hfield => member?_cons_of_notMem (hskip names' hfield),
        ih hdisjoint]
      rfl

/-- A record that is written under names of its fields, in their order, is whole if its values are,
and each field is found with its value. -/
theorem record_present (members : List (String × Option Json)) (h : Named members fields)
    (hfields : fields.flatten.Nodup) (hvalues : ∀ m ∈ members, ∀ v ∈ m.2, Whole v) :
    (present members).Whole ∧ record? fields (present members) = some (members.map Prod.snd) := by
  obtain ⟨-, hdisjoint⟩ := List.nodup_flatten.1 hfields
  refine ⟨.object ((h.nodup hdisjoint).sublist sublist_visible) ?_, h.mapM_member? hdisjoint⟩
  exact fun m hm => hvalues _ (mem_of_mem_visible hm) m.2 rfl

end LedgerClient.Json
