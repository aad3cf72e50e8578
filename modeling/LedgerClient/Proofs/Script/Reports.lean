import LedgerClient.Proofs.Text.Parts
import LedgerClient.Script.Outcome

/-!
# Reports of outcomes

A report is read part by part, and the flags that its parts name are united, so that two reports
with a comma between them tell what both of them tell (`Outcome.parse_append`). A part is understood
if there is nothing in it but blanks, or a known name in any case, and a report if all of its parts
are (`Outcome.exists_parse_iff`). A flag is set if its name is mentioned, however often and wherever
(`Outcome.flag_parse_iff`). So what a report tells is told by the names that it mentions
(`Outcome.reports_unite`).
-/

namespace LedgerClient.Script.Outcome

/-- The names that are known in a report. -/
def knownNames : List String := ["NONE", "HALT", "FAULT", "BREAK"]

/-- The flags with their names. -/
def flags : List (String × (Outcome → Bool)) :=
  [("HALT", halted), ("FAULT", faulted), ("BREAK", stopped)]

/-- What stands between two commas is the name in some case, with blanks around it. -/
def Spells (part : List Char) (name : String) : Prop :=
  ∃ word, Text.Framed word part ∧ word.map Char.toUpper = name.toList

/-- What stands between two commas is a known name, or nothing but blanks. -/
def Understood (part : List Char) : Prop := ∃ name ∈ "" :: knownNames, Spells part name

/-- The name stands in one of the parts of the report. -/
def Mentions (s name : String) : Prop := name ≠ "" ∧ ∃ part ∈ s.toList.splitOn ',', Spells part name

/-! ## Flags -/

/-- No flag adds nothing. -/
theorem union_noFlag (o : Outcome) : o.union noFlag = o := by
  simp only [union, noFlag, Bool.or_false]

/-- In which groups flags are added makes no difference. -/
theorem union_assoc (a b c : Outcome) : (a.union b).union c = a.union (b.union c) := by
  simp only [union, Bool.or_assoc]

/-- A flag is set in what two outcomes tell together if one of them sets it. -/
theorem flag_union {flag : String × (Outcome → Bool)} (h : flag ∈ flags) (a b : Outcome) :
    flag.2 (a.union b) = (flag.2 a || flag.2 b) := by
  simp only [flags, List.mem_cons, List.not_mem_nil, or_false] at h
  obtain rfl | rfl | rfl := h <;> rfl

/-- Without flags none is set. -/
theorem flag_noFlag {flag : String × (Outcome → Bool)} (h : flag ∈ flags) :
    flag.2 noFlag = false := by
  simp only [flags, List.mem_cons, List.not_mem_nil, or_false] at h
  obtain rfl | rfl | rfl := h <;> rfl

/-- Every flag has a name. -/
theorem flag_name_ne {flag : String × (Outcome → Bool)} (h : flag ∈ flags) : flag.1 ≠ "" := by
  simp only [flags, List.mem_cons, List.not_mem_nil, or_false] at h
  obtain rfl | rfl | rfl := h <;> decide

/-- An outcome is known by its flags. -/
theorem eq_of_flags {a b : Outcome} (h : ∀ flag ∈ flags, flag.2 a = true ↔ flag.2 b = true) :
    a = b := by
  simp only [flags, List.forall_mem_cons, ← Bool.eq_iff_iff] at h
  obtain ⟨hhalted, hfaulted, hstopped, -⟩ := h
  cases a
  cases b
  simp_all

/-! ## Parts of a report -/

/-- The name that a part spells is what is left of it in upper case. -/
theorem spells_iff {part : List Char} {name : String} :
    Spells part name ↔ (Text.trimChars part).map Char.toUpper = name.toList := by
  constructor
  · rintro ⟨word, hframed, hname⟩
    rw [Text.trimChars_eq_iff.2 hframed, hname]
  · exact fun hname => ⟨_, Text.framed_trimChars part, hname⟩

/-- Every part spells some name. -/
theorem exists_spells (part : List Char) : ∃ name, Spells part name :=
  ⟨String.ofList _, spells_iff.2 String.toList_ofList.symm⟩

/-- A part has one name only. -/
theorem Spells.eq {part : List Char} {a b : String} (ha : Spells part a) (hb : Spells part b) :
    a = b :=
  String.toList_injective ((spells_iff.1 ha).symm.trans (spells_iff.1 hb))

/-- What the known names stand for. -/
def meanings : List (String × Outcome) :=
  [("NONE", noFlag), ("HALT", ⟨true, false, false⟩), ("FAULT", ⟨false, true, false⟩),
    ("BREAK", ⟨false, false, true⟩)]

/-- A known name stands for its meaning. -/
theorem ofName?_eq_some_iff {name : String} {o : Outcome} :
    ofName? name.toList = some o ↔ (name, o) ∈ meanings := by
  simp only [ofName?, String.toList_inj, meanings, List.mem_cons, List.not_mem_nil, or_false,
    Prod.mk.injEq]
  split_ifs <;> simp_all [eq_comm]

/-- Only known names stand for something. -/
theorem exists_ofName?_iff {name : String} :
    (∃ o, ofName? name.toList = some o) ↔ name ∈ knownNames := by
  have hnames : knownNames = meanings.map (·.1) := rfl
  simp only [ofName?_eq_some_iff, hnames, List.mem_map, Prod.exists, exists_and_right,
    exists_eq_right]

/-- The flag that a name stands for is the one with the name. -/
theorem flag_ofName? {name : String} {o : Outcome} (h : ofName? name.toList = some o)
    {flag : String × (Outcome → Bool)} (hflag : flag ∈ flags) :
    flag.2 o = true ↔ name = flag.1 := by
  have hmeanings : ∀ known ∈ meanings, ∀ flag ∈ flags, flag.2 known.2 = true ↔ known.1 = flag.1 := by
    decide
  exact hmeanings _ (ofName?_eq_some_iff.1 h) flag hflag

/-- A part that spells a name is read as what the name stands for, and as no flag if that is
empty. -/
theorem ofPiece_eq_ok_iff {part : List Char} {name : String} (h : Spells part name) {o : Outcome} :
    ofPiece part = .ok o ↔ name = "" ∧ o = noFlag ∨ ofName? name.toList = some o := by
  have hempty : (Text.trimChars part).isEmpty = true ↔ name = "" := by
    rw [List.isEmpty_iff, ← List.map_eq_nil_iff (f := Char.toUpper), spells_iff.1 h,
      String.toList_eq_nil_iff]
  rw [ofPiece, spells_iff.1 h]
  split
  · next hblank =>
    obtain rfl := hempty.1 hblank
    exact ⟨fun hok => .inl ⟨rfl, (Except.ok.inj hok).symm⟩, fun hflag => by simp_all [ofName?]⟩
  · next hword =>
    rw [hempty] at hword
    cases ofName? name.toList with
    | none => simp [hword]
    | some flag => simp [hword]

/-- An error names what is left of a part that is not understood. -/
theorem ofPiece_eq_error {part : List Char} {e : UnknownName} (h : ofPiece part = .error e) :
    Text.Framed e.name.toList part := by
  rw [ofPiece] at h
  split at h
  · cases h
  split at h
  · cases h
  · cases h
    rw [String.toList_ofList]
    exact Text.framed_trimChars part

/-- A part is read if it is understood. -/
theorem exists_ofPiece_iff {part : List Char} :
    (∃ o, ofPiece part = .ok o) ↔ Understood part := by
  obtain ⟨name, hname⟩ := exists_spells part
  have hunderstood : Understood part ↔ name = "" ∨ name ∈ knownNames := by
    rw [← List.mem_cons]
    exact ⟨fun ⟨other, hother, h⟩ => hname.eq h ▸ hother, fun h => ⟨name, h, hname⟩⟩
  simp only [hunderstood, ← exists_ofName?_iff, ofPiece_eq_ok_iff hname, exists_or,
    exists_and_left, exists_eq, and_true]

/-- It sets the flag that it spells. -/
theorem flag_ofPiece {part : List Char} {o : Outcome} (h : ofPiece part = .ok o)
    {flag : String × (Outcome → Bool)} (hflag : flag ∈ flags) :
    flag.2 o = true ↔ Spells part flag.1 := by
  obtain ⟨name, hname⟩ := exists_spells part
  have hspells : Spells part flag.1 ↔ name = flag.1 := ⟨hname.eq, fun heq => heq ▸ hname⟩
  rw [hspells]
  obtain ⟨rfl, rfl⟩ | hsome := (ofPiece_eq_ok_iff hname).1 h
  · rw [flag_noFlag hflag]
    exact iff_of_false nofun fun hempty => flag_name_ne hflag hempty.symm
  · exact flag_ofName? hsome hflag

/-! ## Reports part by part -/

/-- What was told before the parts can be added after them. -/
theorem addPieces_union (a b : Outcome) (parts : List (List Char)) :
    addPieces (a.union b) parts = a.union <$> addPieces b parts := by
  induction parts generalizing b with
  | nil => rfl
  | cons part parts ih =>
    rw [addPieces, addPieces]
    cases ofPiece part with
    | error e => rfl
    | ok flag =>
      show addPieces ((a.union b).union flag) parts = a.union <$> addPieces (b.union flag) parts
      rw [union_assoc, ih]

/-- Further parts go on from what was told by the first. -/
theorem addPieces_append (o : Outcome) (parts more : List (List Char)) :
    addPieces o (parts ++ more) = addPieces o parts >>= (addPieces · more) := by
  induction parts generalizing o with
  | nil => rfl
  | cons part parts ih =>
    rw [List.cons_append, addPieces, addPieces]
    cases ofPiece part with
    | error e => rfl
    | ok flag => exact ih (o.union flag)

/-- Two reports with a comma between them tell what both of them tell, and fail as the first of them
that fails. -/
theorem parse_append (a b : String) :
    parse (a ++ "," ++ b) = do return (← parse a).union (← parse b) := by
  have hpieces : Text.pieces ',' (a ++ "," ++ b).toList =
      Text.pieces ',' a.toList ++ Text.pieces ',' b.toList := by
    rw [String.toList_append, String.toList_append, List.append_assoc]
    simp only [Text.pieces_eq_splitOn]
    exact List.splitOn_append_cons_self _ _
  rw [parse, hpieces, addPieces_append]
  refine bind_congr fun o => ?_
  have hunion := addPieces_union o noFlag (Text.pieces ',' b.toList)
  rw [union_noFlag, map_eq_pure_bind] at hunion
  exact hunion

/-- Parts are read if all of them are understood. -/
theorem exists_addPieces_iff {o : Outcome} {parts : List (List Char)} :
    (∃ o', addPieces o parts = .ok o') ↔ ∀ part ∈ parts, Understood part := by
  induction parts generalizing o with
  | nil => exact iff_of_true ⟨o, rfl⟩ (List.forall_mem_nil _)
  | cons part parts ih =>
    rw [List.forall_mem_cons, ← exists_ofPiece_iff, addPieces]
    cases ofPiece part with
    | error e => exact iff_of_false nofun fun h => nomatch h.1
    | ok flag => exact ih.trans (and_iff_right ⟨flag, rfl⟩).symm

/-- Parts that are not all understood fail at the first of them. -/
theorem addPieces_eq_error {o : Outcome} {parts : List (List Char)} {e : UnknownName}
    (h : addPieces o parts = .error e) :
    ∃ before part after, parts = before ++ part :: after ∧ (∀ p ∈ before, Understood p) ∧
      ¬ Understood part ∧ Text.Framed e.name.toList part := by
  induction parts generalizing o with
  | nil => cases h
  | cons part parts ih =>
    rw [addPieces] at h
    split at h
    · next flag hflag =>
      obtain ⟨before, fault, after, rfl, hbefore, hfault⟩ := ih h
      refine ⟨part :: before, fault, after, rfl, ?_, hfault⟩
      exact List.forall_mem_cons.2 ⟨exists_ofPiece_iff.1 ⟨flag, hflag⟩, hbefore⟩
    · next hpart =>
      cases h
      refine ⟨[], part, parts, rfl, List.forall_mem_nil _, ?_, ofPiece_eq_error hpart⟩
      rw [← exists_ofPiece_iff, hpart]
      exact nofun

/-- A flag is set if it was before or if a part spells its name. -/
theorem flag_addPieces {flag : String × (Outcome → Bool)} (hflag : flag ∈ flags) {o o' : Outcome}
    {parts : List (List Char)} (h : addPieces o parts = .ok o') :
    flag.2 o' = true ↔ flag.2 o = true ∨ ∃ part ∈ parts, Spells part flag.1 := by
  induction parts generalizing o with
  | nil =>
    cases h
    simp
  | cons part parts ih =>
    rw [addPieces] at h
    split at h
    · next set hset =>
      rw [ih h, flag_union hflag, Bool.or_eq_true, flag_ofPiece hset hflag, List.exists_mem_cons_iff,
        or_assoc]
    · cases h

/-! ## Whole reports -/

/-- A report is read if all of its parts are understood. -/
theorem exists_parse_iff {s : String} :
    (∃ o, parse s = .ok o) ↔ ∀ part ∈ s.toList.splitOn ',', Understood part := by
  rw [← Text.pieces_eq_splitOn]
  exact exists_addPieces_iff

/-- That is so if it mentions known names only. -/
theorem exists_parse_iff_mentions {s : String} :
    (∃ o, parse s = .ok o) ↔ ∀ name, Mentions s name → name ∈ knownNames := by
  rw [exists_parse_iff]
  constructor
  · rintro h name ⟨hne, part, hpart, hname⟩
    obtain ⟨known, hknown, hspells⟩ := h part hpart
    rw [hname.eq hspells]
    exact (List.mem_cons.1 hknown).resolve_left fun hempty => hne (hname.eq hspells ▸ hempty)
  · intro h part hpart
    obtain ⟨name, hname⟩ := exists_spells part
    by_cases hempty : name = ""
    · exact ⟨name, hempty ▸ .head _, hname⟩
    · exact ⟨name, .tail _ (h name ⟨hempty, part, hpart, hname⟩), hname⟩

/-- A flag is set if the report mentions its name. -/
theorem flag_parse_iff {s : String} {o : Outcome} (h : parse s = .ok o)
    {flag : String × (Outcome → Bool)} (hflag : flag ∈ flags) :
    flag.2 o = true ↔ Mentions s flag.1 := by
  rw [flag_addPieces hflag h, flag_noFlag hflag, Text.pieces_eq_splitOn, Mentions]
  simp [flag_name_ne hflag]

/-- Reports that mention the same names tell the same. -/
theorem parse_eq_ok_of_mentions {s t : String} (h : ∀ name, Mentions s name ↔ Mentions t name)
    {o : Outcome} (hs : parse s = .ok o) : parse t = .ok o := by
  obtain ⟨o', ht⟩ : ∃ o', parse t = .ok o' :=
    exists_parse_iff_mentions.2 fun name hname =>
      exists_parse_iff_mentions.1 ⟨o, hs⟩ name ((h name).2 hname)
  have hsame : o' = o := eq_of_flags fun flag hflag => by
    rw [flag_parse_iff ht hflag, flag_parse_iff hs hflag, h]
  rw [ht, hsame]

/-- An outcome is read back from its report. -/
theorem parse_toText (o : Outcome) : parse o.toText = .ok o := by
  rcases o with ⟨_ | _, _ | _, _ | _⟩ <;> rfl

/-- Two reports with a comma between them tell the flags of both, and are refused as the first of
them that is refused. A report is read if each of its parts is a known name in any case, or nothing,
with blanks around it; otherwise it is refused with the first part that is neither. A flag is set if
its name is mentioned, and reports that mention the same names are read as the same outcome or not
at all: the order of the parts, their case, the blanks around them and repetitions do not matter.
The report of an outcome is read as that outcome. -/
theorem reports_unite :
    (∀ a b : String, parse (a ++ "," ++ b) = do return (← parse a).union (← parse b)) ∧
    (∀ s : String, (∃ o, parse s = .ok o) ↔ ∀ part ∈ s.toList.splitOn ',', Understood part) ∧
    (∀ (s : String) (e : UnknownName), parse s = .error e →
      ∃ before part after, s.toList.splitOn ',' = before ++ part :: after ∧
        (∀ p ∈ before, Understood p) ∧ ¬ Understood part ∧ Text.Framed e.name.toList part) ∧
    (∀ (s : String) (o : Outcome), parse s = .ok o →
      ∀ flag ∈ flags, flag.2 o = true ↔ Mentions s flag.1) ∧
    (∀ s t : String, (∀ name, Mentions s name ↔ Mentions t name) →
      ∀ o, parse s = .ok o ↔ parse t = .ok o) ∧
    ∀ o : Outcome, parse o.toText = .ok o := by
  refine ⟨parse_append, fun _ => exists_parse_iff, fun s e h => ?_, fun s o h flag => ?_,
    fun s t h o => ⟨?_, ?_⟩, parse_toText⟩
  · rw [← Text.pieces_eq_splitOn]
    exact addPieces_eq_error h
  · exact flag_parse_iff h
  · exact parse_eq_ok_of_mentions h
  · exact parse_eq_ok_of_mentions fun name => (h name).symm

/-- The names that a report mentions, listed. -/
theorem mentions_iff {s name : String} : Mentions s name ↔ name ≠ "" ∧
    name.toList ∈ (Text.pieces ',' s.toList).map fun part =>
      (Text.trimChars part).map Char.toUpper := by
  simp only [Mentions, spells_iff, Text.pieces_eq_splitOn, List.mem_map]

/-- Two names in two orders, one of them twice and with an empty part in between, and a report whose
second part is no name. -/
theorem reports_unite_sample :
    (∀ name, Mentions " halt,BREAK , ,halt" name ↔ Mentions "Break,HALT" name) ∧
    parse "Break,HALT" = .ok ⟨true, false, true⟩ ∧
    parse " halt,BREAK , ,halt" = .ok ⟨true, false, true⟩ ∧
    Mentions "Break,HALT" "BREAK" ∧
    parse "HALT, boom ,BREAK" = .error ⟨"boom"⟩ ∧
    ∃ before part after, "HALT, boom ,BREAK".toList.splitOn ',' = before ++ part :: after ∧
      (∀ p ∈ before, Understood p) ∧ ¬ Understood part ∧ Text.Framed "boom".toList part := by
  have hsame : ∀ name, Mentions " halt,BREAK , ,halt" name ↔ Mentions "Break,HALT" name := by
    intro name
    have hlong : ((Text.pieces ',' " halt,BREAK , ,halt".toList).map fun part =>
        (Text.trimChars part).map Char.toUpper) =
          ["HALT".toList, "BREAK".toList, "".toList, "HALT".toList] := rfl
    have hshort : ((Text.pieces ',' "Break,HALT".toList).map fun part =>
        (Text.trimChars part).map Char.toUpper) = ["BREAK".toList, "HALT".toList] := rfl
    rw [mentions_iff, mentions_iff, hlong, hshort]
    simp only [List.mem_cons, List.not_mem_nil, or_false, String.toList_inj]
    tauto
  have hread : parse "Break,HALT" = .ok ⟨true, false, true⟩ := rfl
  have hrefused : parse "HALT, boom ,BREAK" = .error ⟨"boom"⟩ := rfl
  obtain ⟨-, -, hfault, hflags, hmentions, -⟩ := reports_unite
  refine ⟨hsame, hread, (hmentions _ _ hsame _).2 hread, ?_, hrefused, hfault _ _ hrefused⟩
  exact (hflags _ _ hread ("BREAK", stopped) (by simp [flags])).1 rfl

end LedgerClient.Script.Outcome
