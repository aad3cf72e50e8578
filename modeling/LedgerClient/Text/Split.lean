/-!
# Texts in parts

`Text.pieces` cuts a text at every separator. A text without a separator is one piece, so there is
always at least one.
-/

namespace LedgerClient.Text

/-- One more character in front of the first piece, or a new empty piece for a separator. -/
def cut (separator : Char) (c : Char) : List (List Char) → List (List Char)
  | [] => if c = separator then [[], []] else [[c]]
  | piece :: pieces =>
    if c = separator then [] :: piece :: pieces else (c :: piece) :: pieces

/-- The pieces of a text between separators. -/
def pieces (separator : Char) (cs : List Char) : List (List Char) :=
  cs.foldr (cut separator) [[]]

example : pieces ',' ['a', ',', ',', 'b'] = [['a'], [], ['b']] := by decide

end LedgerClient.Text
