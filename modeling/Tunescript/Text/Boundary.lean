/-!
# Classes of characters by boundaries

A class of characters that comes in ranges is given by its boundaries, the code points at
which membership changes, in increasing order.  A code point lies in the class when an odd
number of boundaries stand at or below it.
-/

namespace Tunescript.Text

/-- Whether the code point `n` lies in the class with the given boundaries. -/
def within (boundaries : List Nat) (n : Nat) : Bool :=
  boundaries.countP (· ≤ n) % 2 == 1

end Tunescript.Text
