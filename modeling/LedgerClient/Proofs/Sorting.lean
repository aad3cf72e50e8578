/-!
# Stable sorting

Entries with the same key are those that an order does not tell apart. Two lists that hold for each
key the same entries in the same order are permutations of one another (`perm_of_filter_eq`), and if
both are in order they are the same (`eq_of_filter_eq`). So "in order, and for each key as before"
says all about the result of a stable sort, and merge sort keeps to it (`filter_mergeSort`).
-/

namespace LedgerClient.Sorting

variable {α κ : Type} [BEq κ] [LawfulBEq κ] {key : α → κ} {xs ys : List α}

/-- An entry is among those of its own key. -/
theorem mem_filter_key (key : α → κ) {x : α} : x ∈ xs.filter (key · == key x) ↔ x ∈ xs := by
  rw [List.mem_filter]
  exact and_iff_left (beq_self_eq_true _)

/-- The same entries for each key are the same entries. -/
theorem mem_iff_of_filter_eq (h : ∀ k, xs.filter (key · == k) = ys.filter (key · == k)) (x : α) :
    x ∈ xs ↔ x ∈ ys := by
  rw [← mem_filter_key key, h, mem_filter_key]

/-- The same entries for each key, each as often, are the same entries, each as often. -/
theorem perm_of_filter_eq [DecidableEq α]
    (h : ∀ k, xs.filter (key · == k) = ys.filter (key · == k)) : xs.Perm ys := by
  refine List.perm_iff_count.2 fun x => ?_
  have hcount : ∀ zs : List α, (zs.filter (key · == key x)).count x = zs.count x := fun zs =>
    List.count_filter (beq_self_eq_true _)
  rw [← hcount xs, h, hcount]

/-- Lists in order that hold for each key the same entries in the same order are the same. -/
theorem eq_of_filter_eq (key : α → κ) {r : α → α → Prop} (hrefl : ∀ x, r x x)
    (hkey : ∀ x y, r x y → r y x → key x = key y)
    (h : ∀ k, xs.filter (key · == k) = ys.filter (key · == k))
    (hxs : xs.Pairwise r) (hys : ys.Pairwise r) : xs = ys := by
  induction xs generalizing ys with
  | nil =>
    exact (List.eq_nil_iff_forall_not_mem.2 fun y hy => nomatch (mem_iff_of_filter_eq h y).2 hy).symm
  | cons x xs ih =>
    cases ys with
    | nil => exact nomatch (mem_iff_of_filter_eq h x).1 (.head _)
    | cons y ys =>
      obtain ⟨hx, hxtail⟩ := List.pairwise_cons.1 hxs
      obtain ⟨hy, hytail⟩ := List.pairwise_cons.1 hys
      -- Each head is in the other list, so that neither comes before the other.
      have hle : r x y := by
        obtain _ | ⟨_, hmem⟩ := (mem_iff_of_filter_eq h y).2 (.head _)
        · exact hrefl _
        · exact hx _ hmem
      have hge : r y x := by
        obtain _ | ⟨_, hmem⟩ := (mem_iff_of_filter_eq h x).1 (.head _)
        · exact hrefl _
        · exact hy _ hmem
      have hheads := h (key y)
      simp only [List.filter_cons, hkey x y hle hge, beq_self_eq_true, if_true,
        List.cons.injEq] at hheads
      obtain ⟨rfl, -⟩ := hheads
      refine congrArg _ (ih (fun k => ?_) hxtail hytail)
      have htails := h k
      simp only [List.filter_cons] at htails
      split at htails
      · exact (List.cons.inj htails).2
      · exact htails

/-- Merge sort keeps the entries of one key in their order, if it does not tell them apart. -/
theorem filter_mergeSort {le : α → α → Bool}
    (htrans : ∀ x y z, le x y = true → le y z = true → le x z = true)
    (htotal : ∀ x y, (le x y || le y x) = true)
    (hkey : ∀ x ∈ xs, ∀ y ∈ xs, key x = key y → le x y = true) (k : κ) :
    (xs.mergeSort le).filter (key · == k) = xs.filter (key · == k) := by
  have hequal : (xs.filter (key · == k)).Pairwise fun x y => le x y = true := by
    refine List.pairwise_of_forall_mem_list fun x hx y hy => ?_
    obtain ⟨hx, hxk⟩ := List.mem_filter.1 hx
    obtain ⟨hy, hyk⟩ := List.mem_filter.1 hy
    exact hkey x hx y hy ((beq_iff_eq.1 hxk).trans (beq_iff_eq.1 hyk).symm)
  -- What merge sort need not move stays a sublist, here of the entries with the key.
  have hsublist := (List.sublist_mergeSort htrans htotal hequal List.filter_sublist).filter
    (key · == k)
  rw [List.filter_filter] at hsublist
  simp only [Bool.and_self] at hsublist
  have hlength := ((List.mergeSort_perm xs le).filter (key · == k)).length_eq
  exact (hsublist.eq_of_length hlength.symm).symm

end LedgerClient.Sorting
