import LedgerClient.Bytes.Hex
import LedgerClient.Proofs.Bytes.Text
import LedgerClient.Text.Case

/-!
# What hexadecimal texts spell

Bytes are written half by half, each half as a digit (`toList_encode`). A text is read as bytes
exactly if the values of its digits are their halves (`decode_eq_ok_iff_spells`). That is so exactly
if the text is in lower case what is written for them (`decode_eq_ok_iff`), and then it consists of
digits of either case, two for each byte (`isDigit_of_toLowerAscii`). What is written is in lower
case itself (`toLowerAscii_encode`), so it is read back.
-/

namespace LedgerClient.Hex

/-! ## Digits -/

/-- A hexadecimal digit of either case. -/
def IsDigit (c : Char) : Prop :=
  '0' ≤ c ∧ c ≤ '9' ∨ 'a' ≤ c ∧ c ≤ 'f' ∨ 'A' ≤ c ∧ c ≤ 'F'

instance (c : Char) : Decidable (IsDigit c) := inferInstanceAs (Decidable (_ ∨ _))

/-- What is written as a digit is a character of ASCII in lower case. -/
theorem digit_lower : ∀ n < 16, (digit n).toNat < 128 ∧ (digit n).toLower = digit n := by decide

/-- What is read as a digit is a byte of ASCII with a value below 16. -/
theorem digitValue?_lt {b : UInt8} {n : Nat} (h : digitValue? b = some n) :
    b.toNat < 128 ∧ n < 16 := by
  simp only [digitValue?] at h
  split at h
  · cases h
    omega
  split at h
  · cases h
    omega
  split at h
  · cases h
    omega
  · cases h

/-- Of the characters of ASCII, the digits are those with a digit as their lower case, and that is
the one whose value they have. -/
theorem digits_ascii : ∀ k < 128,
    (IsDigit (Char.ofNat k) ↔ ∃ n < 16, (Char.ofNat k).toLower = digit n) ∧
      ∀ n < 16, digitValue? (UInt8.ofNat k) = some n ↔ (Char.ofNat k).toLower = digit n := by
  decide +kernel

/-- Only characters of ASCII have one of ASCII as their lower case. -/
theorem toNat_lt_of_toLower {c : Char} (h : c.toLower.toNat < 128) : c.toNat < 128 := by
  by_cases hupper : c.val ≥ 'A'.val ∧ c.val ≤ 'Z'.val
  · have hle : c.toNat ≤ 90 := hupper.2
    omega
  · have hsame : c.toLower = c := dif_neg hupper
    rwa [hsame] at h

/-- A digit has the value of the digit that it is in lower case. -/
theorem digitValue?_eq_some_iff {c : Char} (hc : c.toNat < 128) {n : Nat} (hn : n < 16) :
    digitValue? (UInt8.ofNat c.toNat) = some n ↔ c.toLower = digit n := by
  have hvalue := (digits_ascii c.toNat hc).2 n hn
  rwa [Char.ofNat_toNat] at hvalue

/-- The digits of either case are the characters with a digit as their lower case. -/
theorem isDigit_iff {c : Char} : IsDigit c ↔ ∃ n < 16, c.toLower = digit n := by
  have hiff : c.toNat < 128 → (IsDigit c ↔ ∃ n < 16, c.toLower = digit n) := fun hc => by
    have hdigit := (digits_ascii c.toNat hc).1
    rwa [Char.ofNat_toNat] at hdigit
  constructor
  · intro h
    refine (hiff ?_).1 h
    obtain ⟨-, h⟩ | ⟨-, h⟩ | ⟨-, h⟩ := h <;> exact Nat.lt_of_le_of_lt h (by decide)
  · rintro ⟨n, hn, h⟩
    exact (hiff (toNat_lt_of_toLower (h ▸ (digit_lower n hn).1))).2 ⟨n, hn, h⟩

/-! ## Halves of bytes -/

/-- The halves of bytes, the higher one of each first. -/
def halves (bs : Bytes) : List Nat := bs.flatMap fun b => [b.toNat / 16, b.toNat % 16]

@[simp] theorem halves_nil : halves [] = [] := rfl

@[simp] theorem halves_cons (b : UInt8) (bs : Bytes) :
    halves (b :: bs) = b.toNat / 16 :: b.toNat % 16 :: halves bs := rfl

/-- There are two halves for each byte. -/
theorem length_halves (bs : Bytes) : (halves bs).length = 2 * bs.length := by
  induction bs with
  | nil => rfl
  | cons b bs ih =>
    rw [halves_cons, List.length_cons, List.length_cons, ih, List.length_cons]
    omega

/-- Every half lies below 16. -/
theorem lt_of_mem_halves {bs : Bytes} {n : Nat} (h : n ∈ halves bs) : n < 16 := by
  obtain ⟨b, -, hb⟩ := List.mem_flatMap.1 h
  have := b.toNat_lt
  obtain rfl | hb := List.mem_cons.1 hb
  · omega
  · obtain rfl := List.mem_singleton.1 hb
    omega

/-- Bytes are written as the digits of their halves. -/
theorem toList_encode (bs : Bytes) : (encode bs).toList = (halves bs).map digit := by
  rw [encode, String.toList_ofList, halves, List.map_flatMap]
  rfl

/-! ## What is read -/

/-- The values of the digits are the halves of the bytes. -/
def Spells (digits bs : Bytes) : Prop := digits.map digitValue? = (halves bs).map some

/-- No digits spell no bytes. -/
theorem spells_nil_iff {bs : Bytes} : Spells [] bs ↔ bs = [] := by
  cases bs <;> simp [Spells]

/-- A single digit spells nothing. -/
theorem not_spells_singleton {b : UInt8} {bs : Bytes} : ¬ Spells [b] bs := by
  cases bs <;> simp [Spells]

/-- Two digits more are one byte more. -/
theorem spells_cons_iff {high low : UInt8} {rest bs : Bytes} :
    Spells (high :: low :: rest) bs ↔ ∃ h l bs', digitValue? high = some h ∧
      digitValue? low = some l ∧ bs = UInt8.ofNat (16 * h + l) :: bs' ∧ Spells rest bs' := by
  constructor
  · intro hspells
    cases bs with
    | nil => simp [Spells] at hspells
    | cons b bs =>
      simp only [Spells, List.map_cons, halves_cons, List.cons.injEq] at hspells
      obtain ⟨hhigh, hlow, hrest⟩ := hspells
      refine ⟨_, _, bs, hhigh, hlow, ?_, hrest⟩
      rw [Nat.div_add_mod, UInt8.ofNat_toNat]
  · rintro ⟨h, l, bs, hhigh, hlow, rfl, hrest⟩
    obtain ⟨-, hlt⟩ := digitValue?_lt hhigh
    obtain ⟨-, llt⟩ := digitValue?_lt hlow
    have hb : (UInt8.ofNat (16 * h + l)).toNat = 16 * h + l := by
      rw [UInt8.toNat_ofNat']
      omega
    have hquotient : (16 * h + l) / 16 = h := by omega
    have hremainder : (16 * h + l) % 16 = l := by omega
    simp only [Spells, List.map_cons, halves_cons, hb, hquotient, hremainder, hhigh, hlow,
      List.cons.injEq, true_and]
    exact hrest

/-- Digits are read in pairs as the bytes that they spell, after those read before. -/
theorem decodePairs_eq_ok_iff {index : Nat} {acc digits bs : Bytes} :
    decodePairs index acc digits = .ok bs ↔
      ∃ read, bs = acc.reverse ++ read ∧ Spells digits read := by
  fun_induction decodePairs index acc digits with
  | case1 index acc high low rest hhigh => simp [spells_cons_iff, hhigh]
  | case2 index acc high low rest h hhigh hlow => simp [spells_cons_iff, hlow]
  | case3 index acc high low rest h hhigh l hlow ih =>
    rw [ih]
    simp only [spells_cons_iff, hhigh, hlow, List.reverse_cons, List.append_assoc,
      List.singleton_append]
    constructor
    · rintro ⟨read, rfl, hspells⟩
      exact ⟨_, rfl, h, l, read, rfl, rfl, rfl, hspells⟩
    · rintro ⟨_, rfl, h, l, read, ⟨⟩, ⟨⟩, rfl, hspells⟩
      exact ⟨read, rfl, hspells⟩
  | case4 index acc b => simp [not_spells_singleton]
  | case5 index acc => simp [spells_nil_iff, eq_comm]

/-- Bytes are spelled by twice as many digits. -/
theorem Spells.length_eq {digits bs : Bytes} (h : Spells digits bs) :
    digits.length = 2 * bs.length := by
  have hlength := congrArg List.length h
  rwa [List.length_map, List.length_map, length_halves] at hlength

/-- A text is read as the bytes that its own bytes spell. That there are pairs of digits follows. -/
theorem decode_eq_ok_iff_spells {s : String} {bs : Bytes} :
    decode s = .ok bs ↔ Spells (Bytes.ofText s) bs := by
  have hpairs := @decodePairs_eq_ok_iff 0 [] (Bytes.ofText s) bs
  simp only [List.reverse_nil, List.nil_append, exists_eq_left'] at hpairs
  rw [decode]
  split
  · next hodd =>
    refine iff_of_false nofun fun h => ?_
    have := h.length_eq
    omega
  · exact hpairs

/-- Characters of ASCII have the values of the digits that they are in lower case. -/
theorem values_eq_iff {cs : List Char} {ns : List Nat} (hcs : ∀ c ∈ cs, c.toNat < 128)
    (hns : ∀ n ∈ ns, n < 16) :
    (cs.map fun c => UInt8.ofNat c.toNat).map digitValue? = ns.map some ↔
      cs.map Char.toLower = ns.map digit := by
  induction cs generalizing ns with
  | nil => cases ns <;> simp
  | cons c cs ih =>
    cases ns with
    | nil => simp
    | cons n ns =>
      obtain ⟨hc, hcs⟩ := List.forall_mem_cons.1 hcs
      obtain ⟨hn, hns⟩ := List.forall_mem_cons.1 hns
      simp only [List.map_cons, List.cons.injEq, digitValue?_eq_some_iff hc hn, ih hcs hns]

/-- What spells anything is of ASCII. -/
theorem Spells.ascii {digits bs : Bytes} (h : Spells digits bs) : ∀ b ∈ digits, b.toNat < 128 := by
  intro b hb
  have hmem : digitValue? b ∈ (halves bs).map some := h ▸ List.mem_map_of_mem hb
  obtain ⟨n, -, hn⟩ := List.mem_map.1 hmem
  exact (digitValue?_lt hn.symm).1

/-- In lower case the text is what is written for the bytes if its characters are digits of their
halves. -/
theorem toLowerAscii_eq_encode_iff {s : String} {bs : Bytes} :
    Text.toLowerAscii s = encode bs ↔ s.toList.map Char.toLower = (halves bs).map digit := by
  rw [← String.toList_inj, toList_encode, Text.toLowerAscii, String.toList_ofList]

/-- The characters of such a text are digits of either case. -/
theorem exists_digit {s : String} {bs : Bytes} (h : Text.toLowerAscii s = encode bs) {c : Char}
    (hc : c ∈ s.toList) : ∃ n < 16, c.toLower = digit n := by
  have hmem : c.toLower ∈ (halves bs).map digit :=
    toLowerAscii_eq_encode_iff.1 h ▸ List.mem_map_of_mem hc
  obtain ⟨n, hn, hdigit⟩ := List.mem_map.1 hmem
  exact ⟨n, lt_of_mem_halves hn, hdigit.symm⟩

/-- A text that is in lower case what is written for bytes is of ASCII. -/
theorem ascii_of_toLowerAscii {s : String} {bs : Bytes} (h : Text.toLowerAscii s = encode bs) :
    ∀ c ∈ s.toList, c.toNat < 128 := by
  intro c hc
  obtain ⟨n, hn, hdigit⟩ := exists_digit h hc
  exact toNat_lt_of_toLower (hdigit ▸ (digit_lower n hn).1)

/-- A text that is in lower case what is written for bytes has two digits for each of them. -/
theorem isDigit_of_toLowerAscii {s : String} {bs : Bytes} (h : Text.toLowerAscii s = encode bs) :
    s.length = 2 * bs.length ∧ ∀ c ∈ s.toList, IsDigit c := by
  refine ⟨?_, fun c hc => isDigit_iff.2 (exists_digit h hc)⟩
  have hlength := congrArg List.length (toLowerAscii_eq_encode_iff.1 h)
  rwa [List.length_map, List.length_map, length_halves, String.length_toList] at hlength

/-- What is written is in lower case. -/
theorem toLowerAscii_encode (bs : Bytes) : Text.toLowerAscii (encode bs) = encode bs := by
  rw [toLowerAscii_eq_encode_iff, toList_encode, List.map_map]
  exact List.map_congr_left fun n hn => (digit_lower n (lt_of_mem_halves hn)).2

/-- A text is read as the bytes for which it is written, its case aside. -/
theorem decode_eq_ok_iff {s : String} {bs : Bytes} :
    decode s = .ok bs ↔ Text.toLowerAscii s = encode bs := by
  have hspells : (∀ c ∈ s.toList, c.toNat < 128) →
      (Spells (Bytes.ofText s) bs ↔ Text.toLowerAscii s = encode bs) := by
    intro hascii
    have hbytes := Bytes.ofText_ofList hascii
    rw [String.ofList_toList] at hbytes
    rw [Spells, hbytes, values_eq_iff hascii fun n => lt_of_mem_halves, toLowerAscii_eq_encode_iff]
  rw [decode_eq_ok_iff_spells]
  constructor
  · intro h
    exact (hspells (Bytes.ascii_of_ofText h.ascii)).1 h
  · intro h
    exact (hspells (ascii_of_toLowerAscii h)).2 h

end LedgerClient.Hex
