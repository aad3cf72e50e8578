import LedgerClient.Text.Case

/-!
# Failures of questions to a node

Whatever goes wrong between a question and its answer is a failure: a code and a message. The node
chooses both when it refuses; the codes below stand for what goes wrong on the way.
-/

namespace LedgerClient.Rpc

/-- An error that a node reported or that kept its answer away. -/
structure Failure where
  code : Int
  message : String
  deriving DecidableEq, Repr, Inhabited

namespace Failure

/-- The code of a reply that is no answer. -/
def parseCode : Int := -32700

/-- The code of a reply that did not arrive or has no result of the right kind. -/
def internalCode : Int := -32603

/-- The code by which a node says that it does not know what it was asked about. -/
def unknownItemCode : Int := -100

/-- The code of a transaction that a node did not accept without saying why. -/
def rejectedCode : Int := -500

/-- A failure on the way. -/
def internal (message : String) : Failure := ⟨internalCode, message⟩

/-- Whether the node said that it does not know what it was asked about. -/
def isUnknownItem (f : Failure) : Bool :=
  f.code == unknownItemCode ||
    Text.contains "unknown transaction" (Text.toLowerAscii f.message)

end Failure

end LedgerClient.Rpc
