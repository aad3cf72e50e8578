import LedgerClient.Ledger.Invocation
import LedgerClient.Wire.Form

/-!
# Ledger values on the wire

The form of each ledger type. Only a cosigner may turn out impossible to send.
-/

namespace LedgerClient.Ledger

instance {size : Nat} : Wire.Form (Digest size) :=
  ⟨Digest.decode, fun h => .ok h.encode, Digest.encodedSize⟩

instance : Wire.Form Fixed8 :=
  ⟨Fixed8.ofWord <$> Wire.Decoder.number Fixed8.size, fun a => .ok a.encode, fun _ => Fixed8.size⟩

instance : Wire.Form Witness := ⟨Witness.decode, fun w => .ok w.encode, Witness.encodedSize⟩

instance : Wire.Form Cosigner := ⟨Cosigner.decode, Cosigner.encode, Cosigner.encodedSize⟩

instance : Wire.Form Attribute := ⟨Attribute.decode, fun a => .ok a.encode, Attribute.encodedSize⟩

instance : Wire.Form Input := ⟨Input.decode, fun i => .ok i.encode, Input.encodedSize⟩

instance : Wire.Form Output := ⟨Output.decode, fun o => .ok o.encode, Output.encodedSize⟩

instance : Wire.Form Transaction :=
  ⟨Transaction.decode, fun t => .ok t.encode, Transaction.encodedSize⟩

instance : Wire.Form Invocation := ⟨Invocation.decode, fun t => .ok t.encode, Invocation.encodedSize⟩

end LedgerClient.Ledger
