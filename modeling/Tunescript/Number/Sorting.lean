import Tunescript.Number.Scalar
import Tunescript.Sorting.Runs

/-!
# Sorting by a scalar

A list is sorted by a key: elements whose key is less come first, and elements with equal
keys keep their order.
-/

namespace Tunescript.Scalar

variable {α : Type} [Scalar α] {β : Type}

/-- The list in the order of the keys. -/
def sortBy (key : β → α) (xs : List β) : List β :=
  Sorting.sort (fun x y => less (key x) (key y)) xs

end Tunescript.Scalar
