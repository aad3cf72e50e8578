import LedgerClient.Text.Case
import Mathlib.Data.List.Infix

/-!
# Words in any case

A text is searched for words by searching it in lower case. What is found are the words of the text
that are the words in lower case (`contains_toLowerAscii_iff`).
-/

namespace LedgerClient.Text

/-- The search finds what stands in one piece in the text. -/
theorem containsChars_iff {part whole : List Char} :
    containsChars part whole = true ↔ part <:+: whole := by
  induction whole with
  | nil => rw [containsChars, List.isEmpty_iff, List.infix_nil]
  | cons c cs ih =>
    rw [containsChars, Bool.or_eq_true, List.isPrefixOf_iff_prefix, ih, List.infix_cons_iff]

/-- The words are in a text in lower case if they are in the text in any case. -/
theorem contains_toLowerAscii_iff {part whole : String} :
    contains part (toLowerAscii whole) = true ↔
      ∃ words, words <:+: whole.toList ∧ words.map Char.toLower = part.toList := by
  rw [contains, containsChars_iff, toLowerAscii, String.toList_ofList, List.infix_map_iff]
  simp only [eq_comm]

end LedgerClient.Text
