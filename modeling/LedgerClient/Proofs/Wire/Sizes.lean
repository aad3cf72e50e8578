import LedgerClient.Wire.Compact
import LedgerClient.Wire.Form
import Mathlib.Algebra.GroupWithZero.Nat

/-!
# Sizes

The size of a value can be told without writing it. `Form.SizesExactly` says which values can be
sent at all, and that their sizes are the numbers of bytes that are sent. The size of a list is that
of its count and those of its entries (`Counted.listSize_eq`), so that it is exact if theirs are,
however many there are (`Counted.length_writeList`).
-/

namespace LedgerClient.Wire

/-- The values that can be sent are those with a property, all of them if none is given. Their sizes
are the numbers of bytes that are sent of them. -/
structure Form.SizesExactly (α : Type) [Form α] (P : α → Prop := fun _ => True) : Prop where
  sent_iff {x : α} : (∃ bs, Form.encode x = .ok bs) ↔ P x
  length_eq {x : α} {bs : Bytes} : Form.encode x = .ok bs → bs.length = Form.size x

/-- Of values that can all be sent, what is sent has to have their sizes. -/
theorem Form.SizesExactly.of_ok {α : Type} [Form α] {write : α → Bytes}
    (hencode : ∀ x : α, Form.encode x = .ok (write x))
    (hlength : ∀ x : α, (write x).length = Form.size x) : Form.SizesExactly α where
  sent_iff {x} := iff_true_intro ⟨write x, hencode x⟩
  length_eq {x bs} h := by
    obtain rfl := Except.ok.inj ((hencode x).symm.trans h)
    exact hlength x

namespace Counted

variable {α : Type} {item : α → Bytes} {itemSize : α → Nat} {xs : List α}

/-- The size of a list is that of its count and those of its entries. -/
theorem listSize_eq : listSize itemSize xs = Count.size xs.length + (xs.map itemSize).sum := by
  have hfold (total : Nat) : xs.foldl (fun total x => total + itemSize x) total =
      total + (xs.map itemSize).sum := by
    induction xs generalizing total with
    | nil => rfl
    | cons x xs ih => rw [List.foldl_cons, ih, List.map_cons, List.sum_cons, Nat.add_assoc]
  exact hfold _

/-- The size of a list is exact if those of its entries are. -/
theorem length_writeList (h : ∀ x ∈ xs, (item x).length = itemSize x) :
    (writeList item xs).length = listSize itemSize xs := by
  rw [writeList, List.length_append, Count.length_write, listSize_eq, List.length_flatMap,
    List.map_congr_left h]

end Counted

end LedgerClient.Wire
