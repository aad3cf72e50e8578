import LedgerClient.Proofs.Ledger.Worth
import LedgerClient.Wallet.Selection

/-!
# Covering an amount

What a selection takes is a prefix of the candidates in the order of the strategy, and so takes each
candidate at most once (`select_subperm`). For candidates with positive amounts whose sum fits a
decimal, `Selection.Covers` says what a selection is: the shortest prefix that is worth enough, with
its exact sum and the exact rest. Selecting succeeds with such a selection exactly if all candidates
together are worth enough (`select_covers`, `select_insufficient`).

Since the prefix is the shortest, the change is less than the last output taken
(`Covers.change_lt_getLast`). This is why change can always be paid back: it is in the range of a
single output, however much the candidates are worth together.
-/

namespace LedgerClient.Wallet.Selection

open Ledger (Hash256 Unspent)
open Ledger.Unspent (worth)

/-! ## The order of the candidates -/

/-- The order of a strategy leaves no candidate out and takes none twice. -/
theorem arrange_perm (strategy : Strategy) (us : List Unspent) : (arrange strategy us).Perm us := by
  cases strategy with
  | asGiven => exact .refl _
  | largestFirst | smallestFirst => exact List.mergeSort_perm _ _

/-- The candidates of an asset are the ones with that asset. -/
theorem mem_ofAsset {asset : Hash256} {us : List Unspent} {u : Unspent} :
    u ∈ ofAsset asset us ↔ u ∈ us ∧ u.asset = asset := by
  rw [ofAsset, List.mem_filter, beq_iff_eq]

/-- Among the candidates of an asset all are of the asset. -/
theorem ofAsset_ofAsset (asset : Hash256) (us : List Unspent) :
    ofAsset asset (ofAsset asset us) = ofAsset asset us := by
  rw [ofAsset, ofAsset, List.filter_filter]
  congr 1
  funext u
  exact Bool.and_self _

/-- The candidates of an asset are found in either part of a list. -/
theorem ofAsset_append (asset : Hash256) (us vs : List Unspent) :
    ofAsset asset (us ++ vs) = ofAsset asset us ++ ofAsset asset vs :=
  List.filter_append _ _

/-- Where all candidates are of one asset, none is left out. -/
theorem ofAsset_eq_self {asset : Hash256} {us : List Unspent} (h : ∀ u ∈ us, u.asset = asset) :
    ofAsset asset us = us :=
  List.filter_eq_self.2 fun u hu => beq_iff_eq.2 (h u hu)

/-- Where none is of the asset, none is left. -/
theorem ofAsset_eq_nil {asset : Hash256} {us : List Unspent} (h : ∀ u ∈ us, u.asset ≠ asset) :
    ofAsset asset us = [] :=
  List.filter_eq_nil_iff.2 fun u hu heq => h u hu (beq_iff_eq.1 heq)

/-- An output counts as often among those of its asset as among all. -/
theorem count_ofAsset (u : Unspent) (us : List Unspent) :
    (ofAsset u.asset us).count u = us.count u :=
  List.count_filter (by simp)

/-! ## What is taken -/

/-- Candidates are taken from the front. -/
theorem takeEnough_front {required total worth : Decimal} {us selected : List Unspent}
    (h : takeEnough required total us = some (selected, worth)) : selected <+: us := by
  induction us generalizing total selected with
  | nil =>
    cases h
    exact List.prefix_rfl
  | cons u us ih =>
    rw [takeEnough] at h
    split at h
    · cases h
      exact List.nil_prefix
    · split at h
      · cases h
      · split at h
        · cases h
        · next hrest =>
          cases h
          exact List.cons_prefix_cons.2 ⟨rfl, ih hrest⟩

/-- What a selection is that succeeds. -/
theorem select_eq_ok_iff {strategy : Strategy} {asset : Hash256} {required : Decimal}
    {us : List Unspent} {s : Selection} :
    select strategy asset required us = .ok s ↔ ¬ required.isNegative = true ∧
      takeEnough required .zero (arrange strategy (ofAsset asset us)) =
        some (s.selected, s.total) ∧
      required.le s.total = true ∧ s.total.sub? required = some s.change := by
  rw [select]
  constructor
  · intro h
    split at h
    · cases h
    next hnonneg =>
    split at h
    · cases h
    next htake =>
    split at h
    · next hle =>
      split at h
      · cases h
      · next hsub =>
        cases h
        exact ⟨hnonneg, htake, hle, hsub⟩
    · split at h <;> cases h
  · rintro ⟨hnonneg, htake, hle, hsub⟩
    simp only [if_neg hnonneg, htake, if_pos hle, hsub]

/-- Where nothing is taken, nothing is added to what is there. -/
theorem total_of_takeEnough_nil {required total worth : Decimal} {us : List Unspent}
    (h : takeEnough required total us = some ([], worth)) : worth = total := by
  cases us with
  | nil =>
    cases h
    rfl
  | cons u us =>
    rw [takeEnough] at h
    split at h
    · cases h
      rfl
    · split at h
      · cases h
      · split at h <;> cases h

/-- Something is taken for a positive amount, whatever the candidates are worth. -/
theorem selected_ne_nil {strategy : Strategy} {asset : Hash256} {required : Decimal}
    {us : List Unspent} {s : Selection} (h : select strategy asset required us = .ok s)
    (hpos : 0 < required.mantissa) : s.selected ≠ [] := by
  intro hnil
  obtain ⟨-, htake, hle, -⟩ := select_eq_ok_iff.1 h
  rw [hnil] at htake
  rw [total_of_takeEnough_nil htake, Decimal.le_iff] at hle
  exact absurd (Decimal.units_pos hpos) (Int.not_lt.2 hle)

/-- A selection takes candidates of the asset only, and each of them at most once. -/
theorem select_subperm {strategy : Strategy} {asset : Hash256} {required : Decimal}
    {us : List Unspent} {s : Selection} (h : select strategy asset required us = .ok s) :
    s.selected.Subperm (ofAsset asset us) := by
  obtain ⟨-, htake, -⟩ := select_eq_ok_iff.1 h
  exact (takeEnough_front htake).sublist.subperm.trans (arrange_perm _ _).subperm

/-! ## Shortest prefixes -/

/-- A selection from candidates in their order is the shortest prefix that covers `amount`
hundred-millionths, with its exact sum and the exact rest. -/
structure Covers (s : Selection) (us : List Unspent) (amount : Int) : Prop where
  isPrefix : s.selected <+: us
  total : s.total.Counts (worth s.selected)
  change : s.change.Counts (worth s.selected - amount)
  enough : amount ≤ worth s.selected
  shortest : ∀ n < s.selected.length, worth (s.selected.take n) < amount

/-- The loop takes the shortest prefix that, with what is already there, is worth enough, or all
candidates if there is none, as long as its sums are decimals. -/
theorem takeEnough_units (required : Decimal) {us : List Unspent} {total : Decimal}
    (hsums : ∀ n, ∃ d : Decimal, d.units = total.units + Unspent.total (us.take n)) :
    ∃ selected total', takeEnough required total us = some (selected, total') ∧
      total'.units = total.units + Unspent.total selected ∧
      (∀ n < selected.length,
        total.units + Unspent.total (selected.take n) < required.units) ∧
      (selected = us ∨ required.units ≤ total.units + Unspent.total selected) := by
  induction us generalizing total with
  | nil => exact ⟨[], total, rfl, by simp, by simp, .inl rfl⟩
  | cons u us ih =>
    rw [takeEnough]
    by_cases hle : required.le total = true
    · have henough := Decimal.le_iff.1 hle
      exact ⟨[], total, if_pos hle, by simp, by simp, .inr (by simpa using henough)⟩
    · have hlt := Int.not_le.1 (mt Decimal.le_iff.2 hle)
      -- The candidate is taken, so that the sum with it has to be a decimal.
      obtain ⟨d, hd⟩ := hsums 1
      rw [List.take_one, List.head?_cons, Option.toList_some, Unspent.total_singleton] at hd
      obtain ⟨t, hadd, ht⟩ := Decimal.add?_of_units hd
      rw [hd] at ht
      have hrest (n : Nat) : ∃ d : Decimal, d.units = t.units + Unspent.total (us.take n) := by
        obtain ⟨d, hd⟩ := hsums (n + 1)
        refine ⟨d, ?_⟩
        rw [hd, ht, List.take_succ_cons, Unspent.total_cons, Int.add_assoc]
      obtain ⟨selected, t', htake, ht', hshort, hall⟩ := ih hrest
      rw [ht] at ht' hshort hall
      refine ⟨u :: selected, t', ?_, ?_, ?_, ?_⟩
      · rw [if_neg hle, hadd]
        simp only [htake]
      · rw [ht', Unspent.total_cons, Int.add_assoc]
      · intro n hn
        cases n with
        | zero => simpa using hlt
        | succ n =>
          have := hshort n (by simpa using hn)
          rwa [List.take_succ_cons, Unspent.total_cons, ← Int.add_assoc]
      · rw [Unspent.total_cons, ← Int.add_assoc]
        exact hall.imp (fun h => by rw [h]) id

/-- The loop in hundred-millionths, for positive amounts whose sum fits the mantissa. -/
theorem takeEnough_spec {required : Decimal} {amount : Int} (hr : required.Counts amount)
    {us : List Unspent} (hpos : ∀ u ∈ us, u.IsPositive) {total : Decimal} {sum : Int}
    (ht : total.Counts sum) (hsum : 0 ≤ sum) (hfits : sum + worth us ≤ Decimal.maxMantissa) :
    ∃ selected total', takeEnough required total us = some (selected, total') ∧
      total'.Counts (sum + worth selected) ∧
      (∀ n < selected.length, sum + worth (selected.take n) < amount) ∧
      (selected = us ∨ amount ≤ sum + worth selected) := by
  have hcounts {vs : List Unspent} (hvs : ∀ u ∈ vs, u.IsPositive) :
      total.units + Unspent.total vs =
        (sum + worth vs) * 10 ^ (Decimal.maxScale - Fixed8.decimals) := by
    rw [ht, Unspent.total_eq hvs, ← Int.add_mul]
  have hfront (n : Nat) : ∀ u ∈ us.take n, u.IsPositive :=
    fun u hu => hpos u (List.mem_of_mem_take hu)
  have hsums (n : Nat) : ∃ d : Decimal, d.units = total.units + Unspent.total (us.take n) := by
    have hnonneg := Unspent.worth_nonneg (hfront n)
    have hle := Unspent.worth_take_le hpos n
    refine ⟨⟨sum + worth (us.take n), Fixed8.decimals, by omega, by decide⟩, ?_⟩
    rw [hcounts (hfront n)]
    rfl
  obtain ⟨selected, total', htake, htotal, hshort, hall⟩ := takeEnough_units required hsums
  have hselected : ∀ u ∈ selected, u.IsPositive :=
    fun u hu => hpos u ((takeEnough_front htake).mem hu)
  refine ⟨selected, total', htake, ?_, ?_, ?_⟩
  · rw [Decimal.Counts, htotal, hcounts hselected]
  · intro n hn
    have hlt := hshort n hn
    rw [hcounts fun u hu => hselected u (List.mem_of_mem_take hu), hr] at hlt
    exact Int.lt_of_mul_lt_mul_right hlt (by decide)
  · refine hall.imp id fun hle => ?_
    rw [hcounts hselected, hr] at hle
    exact Int.le_of_mul_le_mul_right hle (by decide)

variable {strategy : Strategy} {asset : Hash256} {required : Decimal} {us : List Unspent}
  {amount : Int}

/-- The loop of a selection, with the worth of all candidates of the asset. -/
theorem takeEnough_arrange (strategy : Strategy) (hr : required.Counts amount)
    (hpos : ∀ u ∈ ofAsset asset us, u.IsPositive)
    (hfits : worth (ofAsset asset us) ≤ Decimal.maxMantissa) :
    ∃ selected total,
      takeEnough required .zero (arrange strategy (ofAsset asset us)) = some (selected, total) ∧
      total.Counts (worth selected) ∧
      (∀ n < selected.length, worth (selected.take n) < amount) ∧
      (worth selected = worth (ofAsset asset us) ∨ amount ≤ worth selected) ∧
      worth selected ≤ worth (ofAsset asset us) := by
  have hperm := arrange_perm strategy (ofAsset asset us)
  have hpos' : ∀ u ∈ arrange strategy (ofAsset asset us), u.IsPositive :=
    fun u hu => hpos u (hperm.mem_iff.1 hu)
  have hworth := Unspent.worth_perm hperm
  obtain ⟨selected, total, htake, htotal, hshort, hall⟩ :=
    takeEnough_spec hr hpos' Decimal.counts_zero (Int.le_refl 0) (by omega)
  simp only [Int.zero_add] at htotal hshort hall
  obtain ⟨rest, hrest⟩ := takeEnough_front htake
  refine ⟨selected, total, htake, htotal, hshort, hall.imp (fun h => by rw [h, hworth]) id, ?_⟩
  have hrestpos := Unspent.worth_nonneg fun u hu => hpos' u (hrest ▸ List.mem_append_right _ hu)
  rw [← hworth, ← hrest, Unspent.worth_append]
  omega

/-- An amount that the candidates of the asset are worth is covered by a shortest prefix of them. -/
theorem select_covers (strategy : Strategy) (hr : required.Counts amount) (hnonneg : 0 ≤ amount)
    (hpos : ∀ u ∈ ofAsset asset us, u.IsPositive)
    (hfits : worth (ofAsset asset us) ≤ Decimal.maxMantissa)
    (hle : amount ≤ worth (ofAsset asset us)) :
    ∃ s, select strategy asset required us = .ok s ∧
      s.Covers (arrange strategy (ofAsset asset us)) amount := by
  obtain ⟨selected, total, htake, htotal, hshort, hall, hmost⟩ :=
    takeEnough_arrange strategy hr hpos hfits
  have henough : amount ≤ worth selected := by omega
  obtain ⟨change, hsub, hchange⟩ := htotal.sub? hr (by omega)
  refine ⟨⟨selected, total, change⟩, ?_, takeEnough_front htake, htotal, hchange, henough, hshort⟩
  simp only [select, if_neg (hr.not_isNegative hnonneg), htake,
    if_pos ((hr.le_iff htotal).2 henough), hsub]

/-- An amount that the candidates of the asset are not worth is not covered. -/
theorem select_insufficient (strategy : Strategy) (hr : required.Counts amount)
    (hnonneg : 0 ≤ amount) (hpos : ∀ u ∈ ofAsset asset us, u.IsPositive)
    (hfits : worth (ofAsset asset us) ≤ Decimal.maxMantissa)
    (hlt : worth (ofAsset asset us) < amount) :
    ∃ available shortfall, select strategy asset required us =
        .error (.insufficientFunds asset required available shortfall) ∧
      available.Counts (worth (ofAsset asset us)) ∧ required.sub? available = some shortfall := by
  obtain ⟨selected, total, htake, htotal, -, hall, hmost⟩ :=
    takeEnough_arrange strategy hr hpos hfits
  have hworth : worth selected = worth (ofAsset asset us) := by omega
  rw [hworth] at htotal
  have hle := Decimal.le_iff.1 ((htotal.le_iff hr).2 (Int.le_of_lt hlt))
  obtain ⟨shortfall, hsub⟩ :=
    Decimal.exists_sub? (htotal.units_nonneg (Unspent.worth_nonneg hpos)) hle
  refine ⟨total, shortfall, ?_, htotal, hsub⟩
  have hnle : ¬ required.le total = true := by
    rw [hr.le_iff htotal]
    omega
  simp only [select, if_neg (hr.not_isNegative hnonneg), htake, if_neg hnle, hsub]

/-- Selecting an amount succeeds only with a selection that covers it. -/
theorem covers_of_select (hr : required.Counts amount) (hnonneg : 0 ≤ amount)
    (hpos : ∀ u ∈ ofAsset asset us, u.IsPositive)
    (hfits : worth (ofAsset asset us) ≤ Decimal.maxMantissa) {s : Selection}
    (h : select strategy asset required us = .ok s) :
    s.Covers (arrange strategy (ofAsset asset us)) amount := by
  rcases Int.lt_or_le (worth (ofAsset asset us)) amount with hlt | hle
  · obtain ⟨_, _, herror, -⟩ := select_insufficient strategy hr hnonneg hpos hfits hlt
    rw [herror] at h
    cases h
  · obtain ⟨s', hok, hcovers⟩ := select_covers strategy hr hnonneg hpos hfits hle
    rw [hok] at h
    cases h
    exact hcovers

namespace Covers

variable {s : Selection} {us : List Unspent} {amount : Int}

/-- There is change if more is taken than was asked for. -/
theorem hasChange_iff (h : s.Covers us amount) :
    s.hasChange = true ↔ amount < worth s.selected := by
  rw [hasChange, decide_eq_true_eq, h.change.mantissa_pos_iff]
  omega

/-- The change is less than the last output taken: without that one the others are not worth
enough. -/
theorem change_lt_getLast (h : s.Covers us amount) {u : Unspent}
    (hlast : s.selected.getLast? = some u) : worth s.selected - amount < u.value.count := by
  obtain ⟨front, hfront⟩ := List.getLast?_eq_some_iff.1 hlast
  have hshort := h.shortest front.length (by simp [hfront])
  rw [hfront, List.take_left] at hshort
  rw [hfront, Unspent.worth_append, Unspent.worth_cons, Unspent.worth_nil]
  omega

/-- Change is less than one of the outputs taken. -/
theorem change_lt (h : s.Covers us amount) (hnonneg : 0 ≤ amount)
    (hchange : amount < worth s.selected) :
    ∃ u ∈ s.selected, worth s.selected - amount < u.value.count := by
  have hne : s.selected ≠ [] := by
    intro hnil
    rw [hnil, Unspent.worth_nil] at hchange
    omega
  exact ⟨s.selected.getLast hne, List.getLast_mem hne,
    h.change_lt_getLast (List.getLast?_eq_some_getLast hne)⟩

/-- Nothing is left exactly if some prefix of the candidates is worth the amount. -/
theorem worth_eq_iff (h : s.Covers us amount) (hpos : ∀ u ∈ us, u.IsPositive) :
    worth s.selected = amount ↔ ∃ k, worth (us.take k) = amount := by
  have htake := List.prefix_iff_eq_take.1 h.isPrefix
  constructor
  · intro heq
    exact ⟨s.selected.length, by rw [← htake, heq]⟩
  · rintro ⟨k, hk⟩
    have henough := h.enough
    have hlen : s.selected.length ≤ k := by
      by_contra hlt
      have hshort := h.shortest k (by omega)
      rw [htake, List.take_take, Nat.min_eq_left (by omega), hk] at hshort
      omega
    have hle := Unspent.worth_take_le
      (fun u (hu : u ∈ us.take k) => hpos u (List.mem_of_mem_take hu)) s.selected.length
    rw [List.take_take, Nat.min_eq_left hlen, ← htake, hk] at hle
    omega

end Covers

end LedgerClient.Wallet.Selection
