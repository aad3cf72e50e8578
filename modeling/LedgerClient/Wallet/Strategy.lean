/-!
# In which order outputs are spent
-/

namespace LedgerClient.Wallet

/-- In which order outputs are spent. -/
inductive Strategy where
  /-- As they were given. -/
  | asGiven
  /-- The most valuable first. -/
  | largestFirst
  /-- The least valuable first. -/
  | smallestFirst
  deriving DecidableEq, Repr, Inhabited

namespace Strategy

/-- The name of a strategy in settings. -/
def name : Strategy → String
  | asGiven => "default"
  | largestFirst => "largest_first"
  | smallestFirst => "smallest_first"

/-- The strategy with the given name. -/
def ofName? (s : String) : Option Strategy :=
  [asGiven, largestFirst, smallestFirst].find? fun strategy => strategy.name == s

end Strategy

end LedgerClient.Wallet
