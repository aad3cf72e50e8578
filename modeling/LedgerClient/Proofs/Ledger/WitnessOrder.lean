import LedgerClient.Ledger.Witness
import LedgerClient.Proofs.Ledger.HashOrder
import LedgerClient.Proofs.Sorting

/-!
# The order of witnesses

A witness ranks by the number that the hash of its account spells, one without a hash before all
others (`Witness.rank`). A list is sorted stably into another if the other is in the order of ranks
and holds of each account the same witnesses in the same order (`Witness.StablySorted`). That
leaves one list only (`StablySorted.unique`), the one that `Witness.sort` gives
(`stablySorted_sort`).
-/

namespace LedgerClient.Ledger.Witness

/-! ## Ranks -/

/-- Where the account of a witness stands: an unknown one first, the others as numbers. -/
def rank (w : Witness) : Nat := w.scriptHash.elim 0 (·.toNat + 1)

/-- Witnesses of one rank are of one account, or of none. -/
theorem rank_inj {v w : Witness} : v.rank = w.rank ↔ v.scriptHash = w.scriptHash := by
  rw [rank, rank]
  cases v.scriptHash with
  | none => cases w.scriptHash <;> simp
  | some a =>
    cases w.scriptHash with
    | none => simp
    | some b => simp [Digest.toNat_inj]

/-- A witness may stand before those that do not rank below it. -/
theorem le_iff {v w : Witness} : le v w = true ↔ v.rank ≤ w.rank := by
  rw [le, rank, rank, bne_iff_ne]
  cases v.scriptHash with
  | none => cases w.scriptHash <;> simp [compareHash]
  | some a =>
    cases w.scriptHash with
    | none => simp [compareHash]
    | some b => simp [compareHash, Hash160.compare_eq_compare_toNat, Nat.compare_ne_gt]

/-- A list of witnesses in the order of their ranks. -/
def Ordered (ws : List Witness) : Prop := ws.Pairwise fun v w => v.rank ≤ w.rank

/-! ## The witnesses of an account -/

/-- The witnesses of one account, or those of none. -/
def ofAccount (account : Option Hash160) (ws : List Witness) : List Witness :=
  ws.filter (·.scriptHash == account)

@[simp] theorem ofAccount_append (account : Option Hash160) (vs ws : List Witness) :
    ofAccount account (vs ++ ws) = ofAccount account vs ++ ofAccount account ws :=
  List.filter_append ..

/-- Two lists hold of each account the same witnesses in the same order. -/
def SameByAccount (vs ws : List Witness) : Prop :=
  ∀ account, ofAccount account vs = ofAccount account ws

/-- Lists that agree account by account hold the same witnesses. -/
theorem SameByAccount.mem_iff {vs ws : List Witness} (h : SameByAccount vs ws) (w : Witness) :
    w ∈ vs ↔ w ∈ ws :=
  Sorting.mem_iff_of_filter_eq h w

/-- Lists that agree account by account hold the same witnesses, each as often. -/
theorem SameByAccount.perm {vs ws : List Witness} (h : SameByAccount vs ws) : vs.Perm ws :=
  Sorting.perm_of_filter_eq h

/-- Lists in order that agree account by account are the same. -/
theorem SameByAccount.eq_of_ordered {vs ws : List Witness} (h : SameByAccount vs ws)
    (hvs : Ordered vs) (hws : Ordered ws) : vs = ws :=
  Sorting.eq_of_filter_eq scriptHash (fun _ => Nat.le_refl _)
    (fun _ _ hle hge => rank_inj.1 (Nat.le_antisymm hle hge)) h hvs hws

/-- Of distinct accounts there is at most one witness each, so that their order does not matter. -/
theorem sameByAccount_of_perm {vs ws : List Witness} (hperm : vs.Perm ws)
    (hdistinct : (vs.map scriptHash).Nodup) : SameByAccount vs ws := by
  intro account
  have hone : (ofAccount account vs).length ≤ 1 := by
    have hcount := List.nodup_iff_count.1 hdistinct account
    rw [List.count, List.countP_map] at hcount
    rwa [ofAccount, ← List.countP_eq_length_filter]
  have hfilter : (ofAccount account vs).Perm (ofAccount account ws) := hperm.filter _
  match hvs : ofAccount account vs with
  | [] => rw [hvs] at hfilter; exact hfilter.nil_eq
  | [w] => rw [hvs] at hfilter; exact hfilter.singleton_eq
  | _ :: _ :: _ => rw [hvs] at hone; exact absurd hone (by simp)

/-! ## Stable sorting -/

/-- The second list is the first one, sorted by rank; witnesses of one account keep their order. -/
structure StablySorted (ws ws' : List Witness) : Prop where
  ordered : Ordered ws'
  stable : SameByAccount ws' ws

/-- There is one way only to sort a list stably. -/
theorem StablySorted.unique {ws vs us : List Witness} (hvs : StablySorted ws vs)
    (hus : StablySorted ws us) : vs = us :=
  SameByAccount.eq_of_ordered (fun account => (hvs.stable account).trans (hus.stable account).symm)
    hvs.ordered hus.ordered

/-- Sorting witnesses leaves those of one account in their order. -/
theorem stablySorted_sort (ws : List Witness) : StablySorted ws (sort ws) := by
  have htrans : ∀ u v w : Witness, le u v = true → le v w = true → le u w = true :=
    fun u v w huv hvw => le_iff.2 (Nat.le_trans (le_iff.1 huv) (le_iff.1 hvw))
  have htotal : ∀ v w : Witness, (le v w || le w v) = true := fun v w => by
    rw [Bool.or_eq_true, le_iff, le_iff]
    exact Nat.le_total _ _
  refine ⟨(List.pairwise_mergeSort htrans htotal ws).imp le_iff.1, ?_⟩
  exact Sorting.filter_mergeSort htrans htotal fun v _ w _ haccount =>
    le_iff.2 (Nat.le_of_eq (rank_inj.2 haccount))

/-- What is inserted is sorted in with whatever the list was sorted from. -/
theorem StablySorted.insert {ws₀ ws : List Witness} (h : SameByAccount ws ws₀)
    (batch : List Witness) : StablySorted (ws₀ ++ batch) (sort (ws ++ batch)) := by
  obtain ⟨hordered, hstable⟩ := stablySorted_sort (ws ++ batch)
  refine ⟨hordered, fun account => ?_⟩
  rw [hstable, ofAccount_append, ofAccount_append, h]

end LedgerClient.Ledger.Witness
