import LedgerClient.Contract.Error
import LedgerClient.Script.Assembly
import LedgerClient.Script.Reading

/-!
# Descriptions of contracts

Five texts for the reader of a contract. They are pushed last to first, so that the name comes to
lie on top.
-/

namespace LedgerClient.Contract

open Wire (Decoder DecoderOf Emission)

/-- What is said about a contract. -/
structure Description where
  name : String
  version : String
  author : String
  email : String
  description : String
  deriving DecidableEq, Repr, Inhabited

namespace Description

/-- The texts in the order in which they are pushed. -/
def texts (d : Description) : List String :=
  [d.description, d.email, d.author, d.version, d.name]

/-- The pushes of a description. -/
def emit (d : Description) : Emission Script.Error :=
  .all (d.texts.map fun s => .ofExcept (Script.pushText s))

/-- The description made by the next pushes. -/
def decode : DecoderOf Error Description := do
  let description ← Decoder.mapError .ofWire Script.readText
  let email ← Decoder.mapError .ofWire Script.readText
  let author ← Decoder.mapError .ofWire Script.readText
  let version ← Decoder.mapError .ofWire Script.readText
  let name ← Decoder.mapError .ofWire Script.readText
  return ⟨name, version, author, email, description⟩

end Description

end LedgerClient.Contract
