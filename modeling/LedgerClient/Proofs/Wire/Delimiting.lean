import LedgerClient.Proofs.Wire.Reading

/-!
# Encodings that end by themselves

Where encodings stand one after another without padding, each has to say itself where it ends.
`Delimits encode P` says so for the values with `P`: bytes that start with the encoding of one start
with the encoding of no other, and what follows is the same too. An encoding delimits its values if
some decoder reads all of them (`Delimits.of_decides`), be it one that no program uses; so counted
bytes and lists delimit themselves far beyond the limits within which they are read.
-/

namespace LedgerClient.Wire

open scoped Power

variable {ε α : Type}

/-- Among the values with `P`, the bytes of one are never the start of another's. -/
def Delimits (encode : α → Bytes) (P : α → Prop) : Prop :=
  ∀ ⦃x y : α⦄ ⦃r s : Bytes⦄, P x → P y → encode x ++ r = encode y ++ s → x = y ∧ r = s

/-- What a decoder reads whatever follows delimits itself. -/
theorem Delimits.of_decides {d : DecoderOf ε α} {encode : α → Bytes} {P : α → Prop}
    (h : ∀ x, P x → Decides d (encode x) True (· = x)) : Delimits encode P := by
  intro x y r s hx hy heq
  have hdx := (h x hx).read 0 r
  have hdy := (h y hy).read 0 s
  rw [heq, hdy] at hdx
  cases hdx
  exact ⟨rfl, rfl⟩

/-- Values whose bytes are the same are the same. -/
theorem Delimits.injective {encode : α → Bytes} {P : α → Prop} (h : Delimits encode P) {x y : α}
    (hx : P x) (hy : P y) (heq : encode x = encode y) : x = y :=
  (h hx hy (congrArg (· ++ []) heq)).1

/-- The bytes of one value do not even start with the bytes of another. -/
theorem Delimits.eq_of_prefix {encode : α → Bytes} {P : α → Prop} (h : Delimits encode P) {x y : α}
    (hx : P x) (hy : P y) (hstart : encode x <+: encode y) : x = y := by
  obtain ⟨rest, heq⟩ := hstart
  rw [← List.append_nil (encode y)] at heq
  exact (h hx hy heq).1

/-- The number of the bytes in front tells where counted bytes end. -/
theorem delimits_counted : Delimits Counted.write (·.length < 2 ^ (64 : Nat)) :=
  .of_decides fun _ hlength => (decides_readCounted (2 ^ (64 : Nat)) hlength).congr
    (iff_of_true (Nat.le_of_lt hlength) trivial) fun _ => id

/-- A counted list delimits itself if its entries are read one by one. -/
theorem delimits_list {item : Decoder α} {encode : α → Bytes}
    (h : ∀ x, Decides item (encode x) True (· = x)) :
    Delimits (Counted.writeList encode) (·.length < 2 ^ (64 : Nat)) := by
  refine .of_decides (d := Counted.readList item (2 ^ (64 : Nat))) fun xs hlength => ?_
  exact (decides_list (2 ^ (64 : Nat)) hlength fun x _ => h x).congr
    (iff_of_true (Nat.le_of_lt hlength) trivial) fun _ => id

end LedgerClient.Wire
