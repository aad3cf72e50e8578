import LedgerClient.Ledger.Invocation

/-!
# What carries witnesses

Both kinds of transactions have a part that is signed, a name that follows from it, and witnesses in
the order of their accounts. Adding witnesses leaves the signed part and the name as they are.
-/

namespace LedgerClient.Ledger

/-- A kind of transaction that carries witnesses. -/
class Witnessed (α : Type) where
  /-- The part that is signed. -/
  signedPart : α → Bytes
  /-- The name. -/
  id : α → Hash256
  witnesses : α → List Witness
  /-- The transaction with witnesses added, in order. -/
  addWitnesses : α → List Witness → Except Error α

instance : Witnessed Transaction where
  signedPart := Transaction.signedPart
  id := Transaction.id
  witnesses := Transaction.witnesses
  addWitnesses := Transaction.addWitnesses

instance : Witnessed Invocation where
  signedPart := Invocation.signedPart
  id := Invocation.id
  witnesses := Invocation.witnesses
  addWitnesses := Invocation.addWitnesses

end LedgerClient.Ledger
