import LedgerClient.Text.Blank
import LedgerClient.Text.Split
import Mathlib.Data.List.DropRight

/-!
# Parts of texts

The pieces of a text are those into which the library splits a list (`pieces_eq_splitOn`). What is
left of a piece when the blanks at its ends are cut off is the one word that it frames
(`trimChars_eq_iff`).
-/

namespace LedgerClient.Text

/-- The pieces between separators are those of the library. -/
theorem pieces_eq_splitOn (separator : Char) (cs : List Char) :
    pieces separator cs = cs.splitOn separator := by
  induction cs with
  | nil => rfl
  | cons c cs ih =>
    obtain ⟨piece, rest, hsplit⟩ := List.exists_cons_of_ne_nil (List.splitOn_ne_nil separator cs)
    show cut separator c (pieces separator cs) = _
    rw [ih, List.splitOn_cons_eq_if_modifyHead, hsplit, cut]
    simp only [beq_iff_eq, List.modifyHead_cons]

/-! ## Blanks around a word -/

/-- The characters are the word with nothing but blanks around it, and the word neither starts nor
ends with a blank. -/
structure Framed (word cs : List Char) : Prop where
  around : ∃ before after, cs = before ++ word ++ after ∧ (∀ c ∈ before, isBlank c = true) ∧
    ∀ c ∈ after, isBlank c = true
  head : ∀ c ∈ word.head?, isBlank c = false
  last : ∀ c ∈ word.getLast?, isBlank c = false

/-- Blanks before something that starts with none are what is cut off in front. -/
theorem dropWhile_append_of_head {before cs : List Char} (hbefore : ∀ c ∈ before, isBlank c = true)
    (hhead : ∀ c ∈ cs.head?, isBlank c = false) : (before ++ cs).dropWhile isBlank = cs := by
  rw [List.dropWhile_append_of_pos hbefore]
  cases cs with
  | nil => rfl
  | cons c cs => exact List.dropWhile_cons_of_neg (Bool.eq_false_iff.1 (hhead c rfl))

/-- What is left behind the blanks in front starts with none. -/
theorem head_dropWhile (cs : List Char) : ∀ c ∈ (cs.dropWhile isBlank).head?, isBlank c = false := by
  intro c hc
  have hnot := List.head?_dropWhile_not isBlank cs
  rwa [hc] at hnot

/-- Cutting the blanks off leaves a word that is framed by them. -/
theorem framed_trimChars (cs : List Char) : Framed (trimChars cs) cs where
  around := by
    refine ⟨cs.takeWhile isBlank, (cs.dropWhile isBlank).rtakeWhile isBlank, ?_, ?_, ?_⟩
    · show cs = _ ++ (cs.dropWhile isBlank).rdropWhile isBlank ++ _
      rw [List.append_assoc, List.rdropWhile_append_rtakeWhile, List.takeWhile_append_dropWhile]
    · exact fun _ => List.mem_takeWhile_imp
    · exact fun _ => List.mem_rtakeWhile_imp
  head := by
    -- What is cut off behind leaves the first character as it is, if it leaves any.
    obtain ⟨after, hafter⟩ := List.rdropWhile_prefix isBlank (l := cs.dropWhile isBlank)
    intro c hc
    have hcut : ((cs.dropWhile isBlank).rdropWhile isBlank).head? = some c := hc
    refine head_dropWhile cs c ?_
    rw [← hafter, List.head?_append, hcut]
    rfl
  last := by
    intro c hc
    rw [trimChars, List.getLast?_reverse] at hc
    exact head_dropWhile _ c hc

/-- It leaves the only such word. -/
theorem trimChars_eq_iff {word cs : List Char} : trimChars cs = word ↔ Framed word cs := by
  constructor
  · rintro rfl
    exact framed_trimChars cs
  · rintro ⟨⟨before, after, rfl, hbefore, hafter⟩, hhead, hlast⟩
    cases word with
    | nil =>
      have hblank : (before ++ [] ++ after).dropWhile isBlank = [] := by
        rw [List.dropWhile_eq_nil_iff, List.append_nil]
        exact fun c hc => (List.mem_append.1 hc).elim (hbefore c) (hafter c)
      rw [trimChars, hblank]
      rfl
    | cons c word =>
      have hfront : (before ++ (c :: word ++ after)).dropWhile isBlank = c :: word ++ after :=
        dropWhile_append_of_head hbefore hhead
      have hbehind : ∀ c ∈ after.reverse, isBlank c = true :=
        fun c hc => hafter c (List.mem_reverse.1 hc)
      rw [trimChars, List.append_assoc, hfront, List.reverse_append,
        dropWhile_append_of_head hbehind (by rwa [List.head?_reverse]), List.reverse_reverse]

end LedgerClient.Text
