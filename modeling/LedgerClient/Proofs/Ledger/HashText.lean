import LedgerClient.Json.Forms
import LedgerClient.Proofs.Bytes.Hex
import LedgerClient.Proofs.Ledger.HashOrder

/-!
# Texts of hashes

A text is read as a hash exactly if, one mark in front aside, it consists of two hexadecimal digits
for each byte and is in lower case the text that the hash is shown as (`Digest.Spells`). All other
texts are refused for their form (`Digest.hash_has_its_texts`).
-/

namespace LedgerClient.Ledger.Digest

variable {size : Nat}

/-- What may stand in front of the digits. -/
def marks : List String := ["", "0x", "0X"]

/-- The texts of a hash: at most one mark, and digits of either case that are in lower case what the
hash is shown as. -/
inductive Spells (h : Digest size) : String → Prop where
  | mk {mark digits : String} (hmark : mark ∈ marks) (hlength : digits.length = 2 * size)
    (hdigits : ∀ c ∈ digits.toList, Hex.IsDigit c) (hlower : Text.toLowerAscii digits = h.toHex) :
    Spells h (mark ++ digits)

/-- Without its mark, a text is the digits that stand behind it. -/
theorem exists_stripMark (s : String) : ∃ mark ∈ marks, s = mark ++ stripMark s := by
  rw [stripMark]
  split
  · next rest h => exact ⟨"0x", by decide, String.toList_inj.1 (by simpa using h)⟩
  · next rest h => exact ⟨"0X", by decide, String.toList_inj.1 (by simpa using h)⟩
  · exact ⟨"", by decide, String.toList_inj.1 (by simp)⟩

/-- No digits begin with a mark. -/
theorem stripMark_append {mark digits : String} (hmark : mark ∈ marks)
    (hdigits : ∀ c ∈ digits.toList, Hex.IsDigit c) : stripMark (mark ++ digits) = digits := by
  have hmarks : mark = "" ∨ mark = "0x" ∨ mark = "0X" := by simpa [marks] using hmark
  obtain rfl | rfl | rfl := hmarks
  · rw [String.empty_append, stripMark]
    split
    · next rest h => exact absurd (hdigits 'x' (by simp [h])) (by decide)
    · next rest h => exact absurd (hdigits 'X' (by simp [h])) (by decide)
    · rfl
  · simp [stripMark]
  · simp [stripMark]

/-- A text is read as the hash that it is shown as, its mark and its case aside. -/
theorem parse_eq_ok_iff_stripMark {s : String} {h : Digest size} :
    parse s = .ok h ↔ Text.toLowerAscii (stripMark s) = h.toHex := by
  have hbytes : h.bytes.reverse.length = size := by rw [List.length_reverse, h.length_bytes]
  rw [parse, toHex, ← Hex.decode_eq_ok_iff]
  split
  · next hlength =>
    refine iff_of_false nofun fun hdecode => hlength ?_
    rw [← Bytes.length_ofText, (Hex.decode_eq_ok_iff_spells.1 hdecode).length_eq, hbytes]
  split
  · next e hdecode => exact iff_of_false nofun fun h => nomatch hdecode.symm.trans h
  · next bs hdecode =>
    rw [hdecode, ofBytes_eq_ok_iff, Except.ok.injEq]
    exact ⟨fun h => by rw [← h, List.reverse_reverse], fun h => by rw [h, List.reverse_reverse]⟩

/-- A text is read as a hash if it is one of its texts. -/
theorem parse_eq_ok_iff {s : String} {h : Digest size} : parse s = .ok h ↔ h.Spells s := by
  rw [parse_eq_ok_iff_stripMark]
  constructor
  · intro hlower
    obtain ⟨mark, hmark, hs⟩ := exists_stripMark s
    obtain ⟨hlength, hdigits⟩ := Hex.isDigit_of_toLowerAscii hlower
    rw [List.length_reverse, h.length_bytes] at hlength
    rw [hs]
    exact .mk hmark hlength hdigits hlower
  · rintro ⟨hmark, -, hdigits, hlower⟩
    rwa [stripMark_append hmark hdigits]

/-- The text that a hash is shown as is one of its texts. -/
theorem spells_toHex (h : Digest size) : h.Spells h.toHex := by
  have hlower : Text.toLowerAscii h.toHex = h.toHex := Hex.toLowerAscii_encode _
  obtain ⟨hlength, hdigits⟩ := Hex.isDigit_of_toLowerAscii hlower
  rw [List.length_reverse, h.length_bytes] at hlength
  have hspells : h.Spells ("" ++ h.toHex) := .mk (by decide) hlength hdigits hlower
  rwa [String.empty_append] at hspells

/-- A hash is read back from its text. -/
theorem parse_toHex (h : Digest size) : parse h.toHex = .ok h :=
  parse_eq_ok_iff.2 h.spells_toHex

/-- Whatever is wrong with a text, it is its form. -/
theorem category_of_parse {s : String} {e : Error}
    (h : (parse s : Except Error (Digest size)) = .error e) : e.category = .format := by
  rw [parse] at h
  split at h
  · cases h
    rfl
  split at h
  · cases h
    rfl
  · rw [ofBytes] at h
    split at h
    · cases h
    · cases h
      rfl

/-- The texts of a hash have only characters of ASCII. -/
theorem Spells.ascii {h : Digest size} {s : String} (hs : h.Spells s) :
    ∀ c ∈ s.toList, c.toNat < 128 := by
  have hmarks : ∀ mark ∈ marks, ∀ c ∈ mark.toList, c.toNat < 128 := by
    simp [marks]
  obtain ⟨hmark, -, -, hlower⟩ := hs
  intro c hc
  rw [String.toList_append] at hc
  obtain hc | hc := List.mem_append.1 hc
  · exact hmarks _ hmark c hc
  · exact Hex.ascii_of_toLowerAscii hlower c hc

/-- The JSON form of a hash is read back as the hash. -/
theorem ofJson?_toJson (h : Digest size) : ofJson? h.toJson = some h := by
  rw [toJson, ofJson?, parse_toHex]
  rfl

/-- A text is read as a hash exactly if it is one of the texts of that hash, and every text that is
no hash's is refused for its form, among them all that have a character outside ASCII. So a hash is
read back from the text that it is shown as, and from its JSON form. This holds of hashes of any
size: of script hashes with 40 digits, and of the hashes of transactions and assets with 64. -/
theorem hash_has_its_texts :
    (∀ (s : String) (h : Digest size), parse s = .ok h ↔ h.Spells s) ∧
    (∀ s : String, (¬ ∃ h : Digest size, h.Spells s) →
      ∃ e, (parse s : Except Error (Digest size)) = .error e ∧ e.category = .format) ∧
    (∀ s : String, (∃ c ∈ s.toList, 128 ≤ c.toNat) →
      ∃ e, (parse s : Except Error (Digest size)) = .error e ∧ e.category = .format) ∧
    ∀ h : Digest size, parse h.toHex = .ok h ∧ ofJson? h.toJson = some h := by
  have hrefused : ∀ s : String, (¬ ∃ h : Digest size, h.Spells s) →
      ∃ e, (parse s : Except Error (Digest size)) = .error e ∧ e.category = .format := by
    intro s hnone
    cases hs : (parse s : Except Error (Digest size)) with
    | error e => exact ⟨e, rfl, category_of_parse hs⟩
    | ok h => exact absurd ⟨h, parse_eq_ok_iff.1 hs⟩ hnone
  refine ⟨fun _ _ => parse_eq_ok_iff, hrefused, ?_, fun h => ⟨h.parse_toHex, h.ofJson?_toJson⟩⟩
  rintro s ⟨c, hc, hlarge⟩
  refine hrefused s ?_
  rintro ⟨h, hs⟩
  exact absurd (hs.ascii c hc) (Nat.not_lt.2 hlarge)

/-- Digits of both cases behind a mark; a text without its last digit; and twenty letters of two
bytes each, as many as forty digits have. -/
theorem hash_has_its_texts_sample :
    (parse "0XABabABabABabABabABabABabABabABabABabABab" : Except Error Hash160) =
      .ok ⟨List.replicate 20 0xab, rfl⟩ ∧
    (∃ e, (parse "ABabABabABabABabABabABabABabABabABabABa" : Except Error Hash160) = .error e ∧
      e.category = .format) ∧
    ∃ e, (parse "éééééééééééééééééééé" : Except Error Hash160) = .error e ∧
      e.category = .format := by
  obtain ⟨hiff, hrefused, hascii, -⟩ := @hash_has_its_texts Limits.scriptHashSize
  refine ⟨(hiff _ _).2 ?_, hrefused _ ?_, hascii _ ⟨'é', by decide +kernel, by decide⟩⟩
  · have hlower : Text.toLowerAscii "ABabABabABabABabABabABabABabABabABabABab" =
        Digest.toHex ⟨List.replicate 20 0xab, rfl⟩ := by decide +kernel
    obtain ⟨hlength, hdigits⟩ := Hex.isDigit_of_toLowerAscii hlower
    exact @Spells.mk _ _ "0X" _ (by decide) hlength hdigits hlower
  · rintro ⟨h, hs⟩
    have hlong : ∀ s, h.Spells s → 2 * Limits.scriptHashSize ≤ s.length := by
      rintro _ ⟨-, hlength, -, -⟩
      rw [String.length_append]
      omega
    exact absurd (hlong _ hs) (by decide +kernel)

end LedgerClient.Ledger.Digest
