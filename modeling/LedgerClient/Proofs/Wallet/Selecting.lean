import LedgerClient.Proofs.Sorting
import LedgerClient.Proofs.Wallet.Cover

/-!
# What selecting comes to

Candidates are taken in the order of the strategy, which is said here without the sort that makes
it: as they were given, or by falling or rising value, where candidates of one value keep their
order (`Arranged`). There is one such order (`arranged_iff`), and a selection takes the shortest
prefix of it that is worth enough (`settles_arrange`). What the candidates are worth together
decides whether there is one, so that neither the strategy nor the order in which the candidates
come makes a selection fail (`select_settles`).
-/

namespace LedgerClient.Wallet.Selection

open Ledger (Hash256 Unspent)
open Ledger.Unspent (worth)

/-! ## The order of a strategy -/

/-- The candidates `vs` are the candidates `us`, sorted by value; those of one value keep their
order. -/
structure SortedByValue (r : Int → Int → Prop) (us vs : List Unspent) : Prop where
  ordered : vs.Pairwise fun u v => r u.value.count v.value.count
  stable : ∀ n, vs.filter (·.value.count == n) = us.filter (·.value.count == n)

/-- The candidates `vs` are the candidates `us` in the order of a strategy. -/
def Arranged : Strategy → List Unspent → List Unspent → Prop
  | .asGiven, us, vs => vs = us
  | .largestFirst, us, vs => SortedByValue (· ≥ ·) us vs
  | .smallestFirst, us, vs => SortedByValue (· ≤ ·) us vs

/-- There is only one way to sort by value. -/
theorem SortedByValue.unique {r : Int → Int → Prop} [Std.Refl r] [Std.Antisymm r]
    {us vs ws : List Unspent} (hvs : SortedByValue r us vs) (hws : SortedByValue r us ws) :
    vs = ws :=
  Sorting.eq_of_filter_eq (fun u : Unspent => u.value.count)
    (fun u => Std.Refl.refl u.value.count)
    (fun u v => Std.Antisymm.antisymm u.value.count v.value.count)
    (fun n => (hvs.stable n).trans (hws.stable n).symm) hvs.ordered hws.ordered

/-- What may stand before a candidate may stand before those behind it. -/
theorem before_trans (strategy : Strategy) (u v w : Unspent) (huv : before strategy u v = true)
    (hvw : before strategy v w = true) : before strategy u w = true := by
  cases strategy <;> simp only [before, Decimal.le, decide_eq_true_eq] at huv hvw ⊢ <;> omega

/-- Of two candidates one may stand before the other. -/
theorem before_total (strategy : Strategy) (u v : Unspent) :
    (before strategy u v || before strategy v u) = true := by
  cases strategy with
  | asGiven => rfl
  | largestFirst | smallestFirst =>
    simp only [before, Decimal.le, Bool.or_eq_true, decide_eq_true_eq]
    omega

/-- The sort of a strategy sorts by value, if the strategy compares values. -/
theorem sortedByValue_mergeSort {strategy : Strategy} {r : Int → Int → Prop} [Std.Refl r]
    {us : List Unspent}
    (hbefore : ∀ u ∈ us, ∀ v ∈ us,
      before strategy u v = true ↔ r u.value.count v.value.count) :
    SortedByValue r us (us.mergeSort (before strategy)) := by
  have htrans := before_trans strategy
  have htotal := before_total strategy
  have hmem : ∀ u, u ∈ us.mergeSort (before strategy) → u ∈ us := fun u => List.mem_mergeSort.1
  constructor
  · refine (List.pairwise_mergeSort htrans htotal us).imp_of_mem fun hu hv huv => ?_
    exact (hbefore _ (hmem _ hu) _ (hmem _ hv)).1 huv
  · refine Sorting.filter_mergeSort htrans htotal fun u hu v hv hcount => ?_
    refine (hbefore u hu v hv).2 ?_
    rw [hcount]
    exact Std.Refl.refl _

/-- Positive candidates are put in the order of the strategy. -/
theorem arranged_arrange (strategy : Strategy) {us : List Unspent}
    (hpos : ∀ u ∈ us, u.IsPositive) : Arranged strategy us (arrange strategy us) := by
  cases strategy with
  | asGiven => exact rfl
  | largestFirst =>
    exact sortedByValue_mergeSort fun u hu v hv =>
      (hpos v hv).counts.le_iff (hpos u hu).counts
  | smallestFirst =>
    exact sortedByValue_mergeSort fun u hu v hv =>
      (hpos u hu).counts.le_iff (hpos v hv).counts

/-- There is one order of a strategy, and the candidates are put in it. -/
theorem arranged_iff {strategy : Strategy} {us vs : List Unspent}
    (hpos : ∀ u ∈ us, u.IsPositive) : Arranged strategy us vs ↔ vs = arrange strategy us := by
  have harrange := arranged_arrange strategy hpos
  constructor
  · intro h
    cases strategy with
    | asGiven => exact h
    | largestFirst | smallestFirst => exact SortedByValue.unique h harrange
  · rintro rfl
    exact harrange

/-! ## The outcome -/

/-- What selecting comes to for candidates in their order, when `amount` hundred-millionths of an
asset are to be covered. -/
inductive Settles (asset : Hash256) (required : Decimal) (us : List Unspent) (amount : Int) :
    Except Error Selection → Prop where
  /-- There is nothing below zero to cover. -/
  | negative (h : amount < 0) :
    Settles asset required us amount (.error (.amount (.negative required)))
  /-- The candidates are worth enough, and the shortest prefix that is so is taken. -/
  | covered {s : Selection} (hnonneg : 0 ≤ amount) (henough : amount ≤ worth us)
    (hcovers : s.Covers us amount)
    (hchange : ∀ u, s.selected.getLast? = some u → worth s.selected - amount < u.value.count) :
    Settles asset required us amount (.ok s)
  /-- The candidates are not worth enough, and it is told by how much; exactly, if that fits a
  decimal to the hundred-millionth. -/
  | insufficient {available shortfall : Decimal} (hnonneg : 0 ≤ amount) (hlt : worth us < amount)
    (havailable : available.Counts (worth us))
    (hshortfall : required.sub? available = some shortfall)
    (hexact : amount - worth us ≤ Decimal.maxMantissa → shortfall.Counts (amount - worth us)) :
    Settles asset required us amount
      (.error (.insufficientFunds asset required available shortfall))

variable {asset : Hash256} {required : Decimal} {us : List Unspent} {amount : Int}

/-- Only what the candidates are worth decides whether they are enough. -/
theorem Settles.isOk_iff {r : Except Error Selection} (h : Settles asset required us amount r) :
    (∃ s, r = .ok s) ↔ 0 ≤ amount ∧ amount ≤ worth us := by
  cases h with
  | negative h => exact ⟨fun ⟨_, hs⟩ => (nomatch hs), fun hs => by omega⟩
  | covered hnonneg henough => exact ⟨fun _ => ⟨hnonneg, henough⟩, fun _ => ⟨_, rfl⟩⟩
  | insufficient hnonneg hlt => exact ⟨fun ⟨_, hs⟩ => (nomatch hs), fun hs => by omega⟩

/-- Selecting comes to what can be said of the candidates in that order: an amount below zero is
refused, one that they are worth is covered, and of any other the shortfall is told. -/
theorem settles_arrange (strategy : Strategy) (hr : required.Counts amount)
    (hpos : ∀ u ∈ ofAsset asset us, u.IsPositive)
    (hfits : worth (ofAsset asset us) ≤ Decimal.maxMantissa) :
    Settles asset required (arrange strategy (ofAsset asset us)) amount
      (select strategy asset required us) := by
  have hworth := Unspent.worth_perm (arrange_perm strategy (ofAsset asset us))
  rcases Int.lt_or_le amount 0 with hneg | hnonneg
  · rw [select, if_pos (hr.isNegative_iff.2 hneg)]
    exact .negative hneg
  · rcases Int.lt_or_le (worth (ofAsset asset us)) amount with hlt | hle
    · obtain ⟨available, shortfall, herror, havailable, hshortfall⟩ :=
        select_insufficient strategy hr hnonneg hpos hfits hlt
      rw [← hworth] at hlt havailable
      rw [herror]
      refine .insufficient hnonneg hlt havailable hshortfall fun hmissing => ?_
      obtain ⟨_, hsub, hexact⟩ := hr.sub? havailable (by omega)
      cases hshortfall.symm.trans hsub
      exact hexact
    · obtain ⟨s, hok, hcovers⟩ := select_covers strategy hr hnonneg hpos hfits hle
      rw [hok]
      exact .covered hnonneg (hworth ▸ hle) hcovers fun u => hcovers.change_lt_getLast

/-- What selecting an amount comes to, for candidates with positive values whose sum fits a decimal:
there is one order of the strategy, and in it the shortest prefix that is worth enough is taken.
Whether there is one does not depend on the strategy, or on the order of the candidates. No
candidate is taken twice. -/
theorem select_settles (strategy : Strategy) (hr : required.Counts amount)
    (hpos : ∀ u ∈ ofAsset asset us, u.IsPositive)
    (hfits : worth (ofAsset asset us) ≤ Decimal.maxMantissa) :
    (∃ vs, (∀ ws, Arranged strategy (ofAsset asset us) ws ↔ ws = vs) ∧
      Settles asset required vs amount (select strategy asset required us)) ∧
    (∀ strategy' us', us'.Perm us →
      ((∃ s, select strategy' asset required us' = .ok s) ↔
        ∃ s, select strategy asset required us = .ok s)) ∧
    ∀ s, select strategy asset required us = .ok s → s.selected.Subperm (ofAsset asset us) := by
  refine ⟨⟨_, fun ws => arranged_iff hpos, settles_arrange strategy hr hpos hfits⟩,
    fun strategy' us' hperm => ?_, fun s => select_subperm⟩
  have hasset : (ofAsset asset us').Perm (ofAsset asset us) := hperm.filter _
  have hworth := Unspent.worth_perm hasset
  have hsettles := settles_arrange strategy hr hpos hfits
  have hsettles' := settles_arrange strategy' hr (fun u hu => hpos u (hasset.mem_iff.1 hu))
    (hworth.trans_le hfits)
  rw [hsettles.isOk_iff, hsettles'.isOk_iff, Unspent.worth_perm (arrange_perm _ _), hworth,
    Unspent.worth_perm (arrange_perm _ _)]

/-- An amount of so many hundredths. -/
def sampleAmount (hundredths : Nat) : Decimal := (Fixed8.ofWord (hundredths * 1000000)).toDecimal

/-- Outputs of 3, 10 and 1.5 units of the fee asset, and one of 100 units of another asset. -/
def sampleCandidates : List Unspent :=
  [⟨.zero, 1, Hash256.feeAsset, sampleAmount 300⟩, ⟨.zero, 2, .zero, sampleAmount 10000⟩,
    ⟨.zero, 3, Hash256.feeAsset, sampleAmount 1000⟩, ⟨.zero, 4, Hash256.feeAsset, sampleAmount 150⟩]

/-- The outputs of the fee asset are positive. -/
theorem isPositive_sampleCandidates :
    ∀ u ∈ ofAsset Hash256.feeAsset sampleCandidates, u.IsPositive := by
  have hall : ∀ u ∈ sampleCandidates, u.value.scale ≤ Fixed8.decimals ∧ 0 < u.value.mantissa := by
    decide
  intro u hu
  obtain ⟨hscale, hmantissa⟩ := hall u (mem_ofAsset.1 hu).1
  exact Unspent.isPositive_of_scale_le hscale hmantissa

/-- In their own order the 3 and the 10 units are taken for 4, and 9 are change. -/
theorem select_sampleCandidates :
    select .asGiven Hash256.feeAsset (sampleAmount 400) sampleCandidates =
      .ok ⟨[⟨.zero, 1, Hash256.feeAsset, sampleAmount 300⟩,
        ⟨.zero, 3, Hash256.feeAsset, sampleAmount 1000⟩], sampleAmount 1300, sampleAmount 900⟩ := by
  decide +kernel

/-- Four units are covered by the 3 and the 10 that were given first, and then by any other strategy
too. -/
theorem select_settles_sample :
    (∃ s, select .asGiven Hash256.feeAsset (sampleAmount 400) sampleCandidates = .ok s ∧
      s.selected.map (·.index) = [1, 3] ∧ s.change.Counts 900000000) ∧
    ∀ strategy, ∃ s,
      select strategy Hash256.feeAsset (sampleAmount 400) sampleCandidates = .ok s := by
  have hrequired : (sampleAmount 400).Counts 400000000 := Fixed8.counts_toDecimal _
  have hworth : worth (ofAsset Hash256.feeAsset sampleCandidates) = 1450000000 := by
    decide +kernel
  obtain ⟨-, hany, -⟩ := select_settles .asGiven hrequired isPositive_sampleCandidates
    (by rw [hworth]; decide)
  exact ⟨⟨_, select_sampleCandidates, rfl, Fixed8.counts_toDecimal _⟩,
    fun strategy => (hany strategy sampleCandidates (.refl _)).2 ⟨_, select_sampleCandidates⟩⟩

end LedgerClient.Wallet.Selection
