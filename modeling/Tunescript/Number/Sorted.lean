import Tunescript.Number.Sorting
import Tunescript.Sorting.Ordered

/-!
# Lists sorted by a scalar

Sorting by a scalar rearranges a list: `sortBy_perm`.  Where the comparison of scalars is a
weak order, as it is for rational numbers, the keys of the sorted list rise:
`sortBy_pairwise` and `sortBy_pairwise_rat`.
-/

namespace Tunescript.Scalar

variable {α : Type} [Scalar α] {β : Type}

theorem sortBy_perm (key : β → α) (xs : List β) :
  (sortBy key xs).Perm xs
  := Sorting.sort_perm _ xs

theorem sortBy_pairwise (h : Sorting.WeakOrder (less : α → α → Bool)) (key : β → α)
    (xs : List β) :
  (sortBy key xs).Pairwise fun x y => less (key y) (key x) = false
  := by
  apply Sorting.sort_ordered
  exact ⟨fun x y => h.asymm (key x) (key y), fun x y z => h.trans (key x) (key y) (key z)⟩

theorem less_rat_iff (x y : Rat) :
  less x y = true ↔ x < y
  := Iff.rfl

theorem less_rat_eq_false_iff (x y : Rat) :
  less x y = false ↔ y ≤ x
  := by
  rw [← Bool.not_eq_true, less_rat_iff]
  exact Rat.not_lt

theorem weakOrder_rat :
  Sorting.WeakOrder (less : Rat → Rat → Bool)
  := by
  constructor
  · intro x y hxy
    rw [less_rat_eq_false_iff]
    exact Rat.le_of_lt hxy
  · intro x y z hyx hzy
    rw [less_rat_eq_false_iff] at *
    exact Rat.le_trans hyx hzy

theorem sortBy_pairwise_rat (key : β → Rat) (xs : List β) :
  (sortBy key xs).Pairwise fun x y => key x ≤ key y
  := (sortBy_pairwise weakOrder_rat key xs).imp fun h => (less_rat_eq_false_iff _ _).mp h

end Tunescript.Scalar
