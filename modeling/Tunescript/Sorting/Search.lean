/-!
# Searching for the end of a leading part

A condition that holds for the leading elements of a list and for no later one has a last
place where it holds.  `bisect` finds it by halving the list; `leading` first looks at
places that lie twice as far apart each time and halves only the gap at which it ends, so
that a short leading part is found with few questions.  For any other condition both still
give a number, which depends on the places that are looked at; the direction says in which
order the list was read, and so which of two middles is the middle.
-/

namespace Tunescript.Sorting

/-- The direction in which a list is read: from its front, or from its back and so as the
list of its elements in reverse. -/
inductive Direction where
  | forward
  | backward
  deriving DecidableEq

/-- The place at which a list of the given length is halved: of two middles, the one that
stands later before any reversal. -/
def Direction.middle : Direction → Nat → Nat
  | .forward, n => n / 2
  | .backward, n => (n - 1) / 2

variable {β : Type}

/-- The number of leading elements with a property, found by halving. -/
def bisect (d : Direction) (p : β → Bool) (xs : List β) : Nat :=
  match _h : xs.drop (d.middle xs.length) with
  | [] => 0
  | x :: rest =>
    if p x then d.middle xs.length + 1 + bisect d p rest
    else bisect d p (xs.take (d.middle xs.length))
termination_by xs.length
decreasing_by
  · have := congrArg List.length _h
    simp only [List.length_drop, List.length_cons] at this
    omega
  · have := congrArg List.length _h
    simp only [List.length_drop, List.length_cons] at this
    simp only [List.length_take]
    omega

/-- The number of leading elements with a property, found by looking behind gaps that grow
from the given one. -/
def gallop (d : Direction) (p : β → Bool) (gap : Nat) (xs : List β) : Nat :=
  match _h : xs.drop gap with
  | [] => bisect d p xs
  | x :: rest =>
    if p x then gap + 1 + gallop d p (2 * gap + 1) rest else bisect d p (xs.take gap)
termination_by xs.length
decreasing_by
  have := congrArg List.length _h
  simp only [List.length_drop, List.length_cons] at this
  omega

/-- The number of leading elements with a property, found from the first element on. -/
def leading (d : Direction) (p : β → Bool) : List β → Nat
  | [] => 0
  | x :: xs => if p x then gallop d p 0 xs + 1 else 0

end Tunescript.Sorting
