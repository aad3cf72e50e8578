/-!
# Powers of whole numbers

Where a larger library is imported too, `10 ^ k` may be found as that library's power, which is the
same number and another term. In the scope `Power` it is the core library's, so that a definition is
one and the same wherever it is read. A literal exponent is given its type there, as in
`2 ^ (64 : Nat)`, since the power is searched before the type of the literal is settled.
-/

namespace LedgerClient.Power

scoped instance (priority := high) natural : Pow Nat Nat := instPowNat

scoped instance (priority := high) integer : Pow Int Nat := instPowNat

end LedgerClient.Power
