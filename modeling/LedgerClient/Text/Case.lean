/-!
# Letter case

Names that a user types are compared after folding the case of the letters of ASCII. No letter
outside ASCII folds to one of the letters in those names, so that a wider folding would accept
nothing more.
-/

namespace LedgerClient.Text

/-- A text with its ASCII letters in lower case. -/
def toLowerAscii (s : String) : String :=
  String.ofList (s.toList.map Char.toLower)

/-- Whether `part` stands somewhere in `whole`. -/
def containsChars (part : List Char) : List Char → Bool
  | [] => part.isEmpty
  | c :: cs => part.isPrefixOf (c :: cs) || containsChars part cs

/-- Whether the text `part` stands somewhere in the text `whole`. -/
def contains (part whole : String) : Bool :=
  containsChars part.toList whole.toList

end LedgerClient.Text
