import LedgerClient.Bytes.Basic

/-!
# Texts and their bytes

The UTF-8 form of a text is read back as the text, and bytes are read as a text only if they are its
UTF-8 form (`toText?_eq_some_iff`). So texts with the same bytes are the same (`ofText_injective`).
Characters of ASCII are one byte each (`ofText_ofList`), and only they are bytes of ASCII
(`ascii_of_ofText`).
-/

namespace LedgerClient.Bytes

/-- The loop of the library that lists bytes gives those collected so far and then the rest. -/
theorem toList_loop (bs : ByteArray) (i : Nat) (acc : Bytes) :
    ByteArray.toList.loop bs i acc = acc.reverse ++ bs.data.toList.drop i := by
  fun_induction ByteArray.toList.loop bs i acc with
  | case1 i acc hi ih =>
    have hlt : i < bs.data.toList.length := hi
    have hget : bs.get! i = bs.data.toList[i] := by
      simp [ByteArray.get!, getElem!_pos, hi]
    rw [ih, List.reverse_cons, List.append_assoc, List.drop_eq_getElem_cons hlt, hget,
      List.singleton_append]
  | case2 i acc hi => rw [List.drop_eq_nil_of_le (Nat.le_of_not_lt hi), List.append_nil]

/-- The bytes of a text are those that it is stored as. -/
theorem ofText_eq (s : String) : ofText s = s.toByteArray.data.toList := by
  rw [ofText, ByteArray.toList, toList_loop, List.reverse_nil, List.nil_append, List.drop_zero]
  rfl

/-- The bytes of a text are as many as its size in UTF-8 says. -/
theorem length_ofText (s : String) : (ofText s).length = s.utf8ByteSize := by
  rw [ofText_eq]
  rfl

/-- Bytes are read as the text whose UTF-8 form they are. -/
theorem toText?_eq_some_iff {bs : Bytes} {s : String} : toText? bs = some s ↔ ofText s = bs := by
  rw [toText?, ofText_eq, String.fromUTF8?]
  constructor
  · intro h
    split at h
    · cases h
      exact List.toList_data_toByteArray
    · cases h
  · rintro rfl
    have hbytes : s.toByteArray.data.toList.toByteArray = s.toByteArray :=
      ByteArray.ext (by rw [List.data_toByteArray])
    have hvalid : s.toByteArray.data.toList.toByteArray.IsValidUTF8 := by
      rw [hbytes]
      exact s.isValidUTF8
    rw [dif_pos hvalid]
    exact congrArg some (String.toByteArray_inj.1 hbytes)

/-- A text is told by its bytes. -/
theorem ofText_injective {s s' : String} (h : ofText s = ofText s') : s = s' :=
  Option.some.inj ((toText?_eq_some_iff.2 h).symm.trans (toText?_eq_some_iff.2 rfl))

/-- Characters of ASCII are stored as the bytes of their numbers. -/
theorem ofText_ofList {cs : List Char} (h : ∀ c ∈ cs, c.toNat < 128) :
    ofText (String.ofList cs) = cs.map fun c => UInt8.ofNat c.toNat := by
  rw [ofText_eq, String.toByteArray_ofList]
  induction cs with
  | nil => rfl
  | cons c cs ih =>
    have hsize : c.utf8Size = 1 := by
      rw [Char.utf8Size_eq_one_iff, UInt32.le_iff_toNat_le]
      exact Nat.le_of_lt_succ (h c List.mem_cons_self)
    have hrest := ih fun d hd => h d (List.mem_cons_of_mem c hd)
    rw [List.utf8Encode_cons, ByteArray.data_append, Array.toList_append, hrest,
      List.utf8Encode_singleton, String.utf8EncodeChar_eq_singleton hsize]
    rfl

/-- A text whose bytes are numbers of ASCII has only characters of ASCII. -/
theorem ascii_of_ofText {s : String} (h : ∀ b ∈ ofText s, b.toNat < 128) :
    ∀ c ∈ s.toList, c.toNat < 128 := by
  have hnumber : ∀ k < 128, (Char.ofNat k).toNat = k := by decide
  have hascii : ∀ c ∈ (ofText s).map fun b => Char.ofNat b.toNat, c.toNat < 128 := by
    intro c hc
    obtain ⟨b, hb, rfl⟩ := List.mem_map.1 hc
    rw [hnumber _ (h b hb)]
    exact h b hb
  have hback : ofText (String.ofList ((ofText s).map fun b => Char.ofNat b.toNat)) = ofText s := by
    rw [ofText_ofList hascii, List.map_map]
    refine (List.map_congr_left fun b hb => ?_).trans (List.map_id _)
    show UInt8.ofNat (Char.ofNat b.toNat).toNat = b
    rw [hnumber _ (h b hb), UInt8.ofNat_toNat]
  rw [← ofText_injective hback, String.toList_ofList]
  exact hascii

end LedgerClient.Bytes
