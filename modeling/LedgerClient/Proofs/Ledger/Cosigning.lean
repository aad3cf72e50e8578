import LedgerClient.Proofs.Ledger.Canonical

/-!
# Cosigners on the wire

The scope of a cosigner says which of its two lists are sent. A list that is not sent is not read,
so that a cosigner comes back without the lists that its scope has no flag for
(`Cosigner.readBack`); but sent or not, a list must not be too long (`Cosigner.encode_eq_ok_iff`).
Scopes are read from the bytes whose flags exist, and these are the scopes that can be made by
combining (`Scope.known_iff`). Cosigners that were read are short, and come back as they are
(`yields_cosigner`), in the fewest bytes that they can be read from (`cosigners_on_the_wire`).
-/

namespace LedgerClient.Ledger

open Wire (Decides Form Restates WritesShortest Yields)
open scoped Power

/-! ## Scopes -/

namespace Scope

/-- Scopes that can be made: read from a byte, named, or combined of others. -/
inductive Known : Scope → Prop where
  | ofByte {b : UInt8} {s : Scope} (h : ofByte? b = some s) : Known s
  | everywhere : Known everywhere
  | calledByEntry : Known calledByEntry
  | customContracts : Known customContracts
  | customGroups : Known customGroups
  | combine {s t : Scope} (hs : Known s) (ht : Known t) : Known (s.combine t)

/-- A byte is read as a scope if it has no bit but those of known flags and is the byte of the
scope. -/
theorem ofByte?_eq_some_iff {b : UInt8} {s : Scope} :
    ofByte? b = some s ↔ b &&& ~~~ knownFlags = 0 ∧ s.byte = b := by
  rw [ofByte?]
  constructor
  · intro h
    split at h
    · next hflags =>
      cases h
      exact ⟨hflags, rfl⟩
    · cases h
  · rintro ⟨hflags, rfl⟩
    rw [if_pos hflags]

/-- The scopes that can be made are those that are read from their byte. -/
theorem known_iff {s : Scope} : s.Known ↔ ofByte? s.byte = some s := by
  constructor
  · intro h
    induction h with
    | ofByte h =>
      obtain ⟨-, rfl⟩ := ofByte?_eq_some_iff.1 h
      exact h
    | everywhere | calledByEntry | customContracts | customGroups => rfl
    | @combine s t _ _ ihs iht =>
      obtain ⟨hs, -⟩ := ofByte?_eq_some_iff.1 ihs
      obtain ⟨ht, -⟩ := ofByte?_eq_some_iff.1 iht
      have hflags : (s.byte ||| t.byte) &&& ~~~ knownFlags =
          (s.byte &&& ~~~ knownFlags) ||| (t.byte &&& ~~~ knownFlags) :=
        UInt8.toBitVec_inj.1 BitVec.and_or_distrib_right
      rw [hs, ht] at hflags
      exact ofByte?_eq_some_iff.2 ⟨hflags, rfl⟩
  · exact .ofByte

end Scope

/-! ## Cosigners -/

namespace Cosigner

/-- Neither list has more entries than a cosigner may have. -/
structure Short (c : Cosigner) : Prop where
  length_contracts : c.contracts.length ≤ maxEntries
  length_groups : c.groups.length ≤ maxEntries

/-- The bytes that are sent of a cosigner, part after part. -/
def written (c : Cosigner) : Bytes :=
  c.account.encode ++ ([c.scope.byte] ++
    ((if c.scope.hasFlag .customContracts then Wire.Counted.writeList Digest.encode c.contracts
        else []) ++
      (if c.scope.hasFlag .customGroups then Wire.Counted.writeList GroupKey.bytes c.groups
        else [])))

/-- The cosigner without the lists that its scope has no flag for. -/
def readBack (c : Cosigner) : Cosigner :=
  { c with
    contracts := if c.scope.hasFlag .customContracts then c.contracts else []
    groups := if c.scope.hasFlag .customGroups then c.groups else [] }

/-- Cosigners with short lists can be sent. -/
theorem encode_eq_ok_iff {c : Cosigner} {bs : Bytes} :
    c.encode = .ok bs ↔ c.Short ∧ c.written = bs := by
  rw [encode]
  split
  · next h => exact iff_of_false nofun fun hc => Nat.not_lt_of_ge hc.1.length_contracts h
  split
  · next h => exact iff_of_false nofun fun hc => Nat.not_lt_of_ge hc.1.length_groups h
  · next hcontracts hgroups =>
    rw [Except.ok.injEq]
    exact (and_iff_right ⟨Nat.not_lt.1 hcontracts, Nat.not_lt.1 hgroups⟩).symm

end Cosigner

/-! ## What is read of what is sent -/

/-- The bytes of a key are read as that key. -/
theorem decides_groupKey (k : GroupKey) : Decides GroupKey.decode k.bytes True (· = k) :=
  Wire.decides_sized (α := GroupKey) (Q := (· = k)) k.length_bytes (fun bs hbs => ⟨bs, hbs⟩) rfl

/-- A short list of entries that are read one by one is read. -/
theorem decides_entries {α : Type} {item : Wire.Decoder α} {encode : α → Bytes}
    (h : ∀ x, Decides item (encode x) True (· = x)) {xs : List α}
    (hlength : xs.length ≤ Cosigner.maxEntries) :
    Decides (Wire.Counted.readList item Cosigner.maxEntries) (Wire.Counted.writeList encode xs) True
      (· = xs) := by
  have hcount : xs.length < 2 ^ (64 : Nat) := Nat.lt_of_le_of_lt hlength (by decide)
  exact (Wire.decides_list Cosigner.maxEntries hcount fun x _ => h x).congr
    (iff_of_true hlength trivial) fun _ => id

/-- What is sent of a cosigner is read if its scope can be made, without the lists that were not
sent. -/
theorem decides_cosigner {c : Cosigner} (h : c.Short) :
    Decides Cosigner.decode c.written c.scope.Known (· = c.readBack) := by
  rw [Cosigner.decode, Cosigner.written]
  refine Decides.congr (P := True ∧ True ∧ c.scope.Known) ?_ (by simp) fun _ => id
  refine (decides_digest c.account).bind ?_
  rintro _ rfl
  refine (Wire.decides_byte c.scope.byte).bind ?_
  rintro _ rfl
  split
  · next hnone =>
    refine (Decides.fail fun c => ⟨_, c, rfl⟩).congr (iff_of_false id fun hknown => ?_) fun _ => id
    cases hnone.symm.trans (Scope.known_iff.1 hknown)
  · next scope hsome =>
    obtain ⟨-, hbyte⟩ := Scope.ofByte?_eq_some_iff.1 hsome
    obtain rfl : scope = c.scope := congrArg Scope.mk hbyte
    rw [← List.append_nil (if c.scope.hasFlag .customGroups then
      Wire.Counted.writeList GroupKey.bytes c.groups else [])]
    refine Decides.congr (P := True) ?_ (iff_of_true trivial (.ofByte hsome)) fun _ => id
    refine .bind_ite (fun _ => decides_entries (fun k => decides_digest k) h.length_contracts) ?_
    refine .bind_ite (fun _ => decides_entries decides_groupKey h.length_groups) ?_
    exact .pure rfl

/-! ## What was read -/

/-- What is read only under a flag is short, and is nothing without the flag. -/
theorem entries_eq {α : Type} {flag : Prop} [Decidable flag] {xs : List α} {n : Nat}
    (h : flag → xs.length ≤ n) (hnil : ¬ flag → xs = []) :
    xs.length ≤ n ∧ (if flag then xs else []) = xs := by
  by_cases hflag : flag
  · exact ⟨h hflag, if_pos hflag⟩
  · obtain rfl := hnil hflag
    exact ⟨Nat.zero_le n, ite_self _⟩

/-- Cosigners that are read have short lists and a scope that can be made, and no list that is not
sent. -/
theorem yields_cosigner :
    Yields Cosigner.decode fun c => c.scope.Known ∧ c.Short ∧ c.readBack = c := by
  rw [Cosigner.decode]
  refine (Yields.any _).bind fun account _ => (Yields.any _).bind fun flags _ => ?_
  split
  · exact .fail fun c => ⟨_, c, rfl⟩
  · next scope hscope =>
    refine (Wire.yields_readList (.any _) _).bind_ite fun contracts hcontracts hnone => ?_
    refine (Wire.yields_readList (.any _) _).bind_ite fun groups hgroups hnone' => .pure ?_
    obtain ⟨hcontracts, hsent⟩ := entries_eq (fun h => (hcontracts h).1) hnone
    obtain ⟨hgroups, hsent'⟩ := entries_eq (fun h => (hgroups h).1) hnone'
    refine ⟨.ofByte hscope, ⟨hcontracts, hgroups⟩, ?_⟩
    rw [Cosigner.readBack, hsent, hsent']

/-- A key is written as the bytes that it was read from. -/
theorem restates_groupKey : Restates GroupKey.decode fun k out => out = k.bytes :=
  Wire.restates_sized (α := GroupKey) (Q := fun k out => out = k.bytes)
    (fun bs hbs => ⟨bs, hbs⟩) fun _ _ => rfl

/-- A cosigner can be rewritten with the shortest forms of its counts. -/
theorem restates_cosigner : Restates Cosigner.decode fun c out => c.encode = .ok out := by
  have hwritten : Restates Cosigner.decode fun c out => out = c.written := by
    rw [Cosigner.decode]
    refine (restates_digest _).bind ?_
    rintro account _ rfl
    refine Wire.restates_byte.bind ?_
    rintro flags _ rfl
    split
    · exact .fail fun c => ⟨_, c, rfl⟩
    · next scope hscope =>
      obtain ⟨-, rfl⟩ := Scope.ofByte?_eq_some_iff.1 hscope
      refine (Wire.restates_readList (restates_digest _) _).bind_ite fun contracts _ => ?_
      refine (Wire.restates_readList restates_groupKey _).bind_ite fun groups _ => .pure ?_
      rw [Cosigner.written, List.append_nil]
  refine (hwritten.and_yields yields_cosigner).imp ?_
  rintro c out ⟨⟨-, hshort, -⟩, rfl⟩
  exact Cosigner.encode_eq_ok_iff.2 ⟨hshort, rfl⟩

/-! ## Cosigners that are sent and read -/

namespace Cosigner

/-- What is written for a cosigner of known scope is read as the cosigner without the lists that the
scope does not ask for. -/
theorem run_of_encode {c : Cosigner} {bs : Bytes} (hknown : c.scope.Known) (h : c.encode = .ok bs)
    (subject : String) : (Form.decode : Wire.Decoder Cosigner).run subject bs = .ok c.readBack := by
  obtain ⟨hshort, rfl⟩ := encode_eq_ok_iff.1 h
  exact ((decides_cosigner hshort).run_eq_ok_iff subject).2 ⟨hknown, rfl⟩

/-- A cosigner that was read is read again from what is sent of it. -/
theorem run_of_run {c : Cosigner} {bs out : Bytes} {subject : String}
    (hrun : (Form.decode : Wire.Decoder Cosigner).run subject bs = .ok c)
    (h : c.encode = .ok out) : (Form.decode : Wire.Decoder Cosigner).run subject out = .ok c := by
  obtain ⟨hknown, -, hback⟩ := yields_cosigner.of_run hrun
  rw [run_of_encode hknown h, hback]

end Cosigner

/-- Cosigners are sent if neither list has more than sixteen entries. With a scope that can be made
they are read back, without the lists that the scope has no flag for; and what is written of one
that was read is its one shortest encoding. -/
theorem cosigners_on_the_wire (subject : String) :
    (∀ c : Cosigner, (∃ bs, Form.encode c = .ok bs) ↔
      c.contracts.length ≤ Cosigner.maxEntries ∧ c.groups.length ≤ Cosigner.maxEntries) ∧
    (∀ (c : Cosigner) (bs : Bytes), c.scope.Known → Form.encode c = .ok bs →
      (Form.decode : Wire.Decoder Cosigner).run subject bs = .ok
        { c with
          contracts := if c.scope.hasFlag .customContracts then c.contracts else []
          groups := if c.scope.hasFlag .customGroups then c.groups else [] }) ∧
    WritesShortest Cosigner subject := by
  refine ⟨fun c => ?_, fun c bs hknown h => c.run_of_encode hknown h subject, ?_⟩
  · constructor
    · rintro ⟨bs, h⟩
      obtain ⟨hshort, -⟩ := Cosigner.encode_eq_ok_iff.1 h
      exact ⟨hshort.length_contracts, hshort.length_groups⟩
    · rintro ⟨hcontracts, hgroups⟩
      exact ⟨c.written, Cosigner.encode_eq_ok_iff.2 ⟨⟨hcontracts, hgroups⟩, rfl⟩⟩
  · exact .of_restates_ok restates_cosigner Cosigner.run_of_run

/-- A group listed under a scope for contracts is not sent, and is not there when it is read. -/
theorem cosigners_on_the_wire_sample :
    let group : GroupKey := ⟨List.replicate 33 2, rfl⟩
    let c : Cosigner := ⟨.zero, Scope.calledByEntry.combine .customContracts, [.zero], [group]⟩
    ∃ bs, Form.encode c = .ok bs ∧ (Form.decode : Wire.Decoder Cosigner).run "cosigner" bs =
      .ok { c with groups := [] } := by
  intro group c
  obtain ⟨hencode, hback, -⟩ := cosigners_on_the_wire "cosigner"
  obtain ⟨bs, hbs⟩ := (hencode c).2 ⟨by decide, by decide⟩
  have hrun := hback c bs (.combine .calledByEntry .customContracts) hbs
  have hcontracts : c.scope.hasFlag .customContracts = true := by decide
  have hgroups : ¬ c.scope.hasFlag .customGroups = true := by decide
  rw [if_pos hcontracts, if_neg hgroups] at hrun
  exact ⟨bs, hbs, hrun⟩

end LedgerClient.Ledger
