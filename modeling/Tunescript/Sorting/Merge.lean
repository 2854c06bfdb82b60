import Tunescript.Sorting.Search

/-!
# Merging two runs

Two runs that are in order become one by letting out, again and again, the smaller of their
first elements, and of equal ones the left one.  The runs race: as long as neither wins many
times in a row, one element goes out at a time; a run that wins as often as the threshold
asks is taken to win more, and whole leading parts go out that are found by `leading`.  The
threshold falls while such leaps go far and rises when they stop.

The race is run from the front, or, when the left run is the longer one, from the back, on
the runs in reverse and with the larger element going out first.  It ends when the order of
what is left is known.
-/

namespace Tunescript.Sorting

variable {β : Type}

/-- Whether an element of the left run goes out before one of the right run. -/
def goesFirst (lt : β → β → Bool) : Direction → β → β → Bool
  | .forward, x, y => !lt y x
  | .backward, x, y => lt y x

/-- How a race goes on: one element at a time, with the times that either side has won in a
row, or by leaps, first of the left run and then of the right run after a left leap of some
length. -/
inductive Pace where
  | steps (leftWins rightWins : Nat)
  | leftLeap
  | rightLeap (leftLength : Nat)

/-- Two runs in the middle of being merged. -/
structure Race (β : Type) where
  /-- How the race goes on. -/
  pace : Pace
  /-- The wins in a row after which a side may leap. -/
  threshold : Nat
  /-- What is left of the left run. -/
  left : List β
  /-- What is left of the right run. -/
  right : List β

namespace Race

/-- The length from which on a leap is worth another one. -/
def longLeap : Nat := 7

/-- Whether the order of what is left is known: a side has run out, or the side whose last
element belongs to the end has only that one left. -/
def finished (d : Direction) (r : Race β) : Bool :=
  match d, r.left, r.right with
  | .forward, _ :: _ :: _, _ :: _ => false
  | .backward, _ :: _, _ :: _ :: _ => false
  | _, _, _ => true

/-- What is left of the runs of a finished race, in order. -/
def remainder (d : Direction) (r : Race β) : List β :=
  match d with
  | .forward => r.right ++ r.left
  | .backward => r.left ++ r.right

/-- The pace after a side has won some times in a row. -/
def paceAfter (threshold wins : Nat) (steps : Pace) : Pace :=
  if threshold ≤ wins then .leftLeap else steps

/-- The race after a round of leaps of the given lengths, with the threshold that they
earn. -/
def afterLeaps (d : Direction) (leftLength rightLength : Nat) (r : Race β) : Race β :=
  if r.finished d then r
  else if longLeap ≤ leftLength ∨ longLeap ≤ rightLength then
    { r with pace := .leftLeap, threshold := max 1 (r.threshold - 1) }
  else { r with pace := .steps 0 0, threshold := r.threshold + 1 }

/-- One step of a race: the elements that go out, and the race after them. -/
def step (lt : β → β → Bool) (d : Direction) (r : Race β) : List β × Race β :=
  match r.left, r.right with
  | x :: xs, y :: ys =>
    match r.pace with
    | .steps leftWins rightWins =>
      if goesFirst lt d x y then
        let wins := leftWins + 1
        ([x], { r with pace := paceAfter r.threshold wins (.steps wins 0), left := xs })
      else
        let wins := rightWins + 1
        ([y], { r with pace := paceAfter r.threshold wins (.steps 0 wins), right := ys })
    | .leftLeap =>
      let n := leading d (fun x => goesFirst lt d x y) (x :: xs)
      let next := { r with left := (x :: xs).drop n, pace := .rightLeap n }
      if next.finished d then ((x :: xs).take n, next)
      else ((x :: xs).take n ++ [y], { next with right := ys })
    | .rightLeap leftLength =>
      let n := leading d (fun y => !goesFirst lt d x y) (y :: ys)
      let next := { r with right := (y :: ys).drop n }
      if next.finished d then ((y :: ys).take n, next)
      else ((y :: ys).take n ++ [x], afterLeaps d leftLength n { next with left := xs })
  | _, _ => ([], r)

/-- The elements of both runs in the order in which they go out, and the threshold at the
end, after at most the given number of steps. -/
def run (lt : β → β → Bool) (d : Direction) : (steps : Nat) → Race β → List β × Nat
  | 0, r => (r.remainder d, r.threshold)
  | n + 1, r =>
    if r.finished d then (r.remainder d, r.threshold)
    else
      let (out, next) := r.step lt d
      let (rest, threshold) := run lt d n next
      (out ++ rest, threshold)

end Race

/-- The elements of two runs in the order in which they go out, and the threshold at the
end. -/
def race (lt : β → β → Bool) (d : Direction) (threshold : Nat) (xs ys : List β) :
    List β × Nat :=
  Race.run lt d (xs.length + ys.length) ⟨.steps 0 0, threshold, xs, ys⟩

/-- The two runs merged where the first element of the right one is the smallest and the
last element of the left one the largest, with the threshold at the end. -/
def mergeOverlap (lt : β → β → Bool) (threshold : Nat) (xs ys : List β) : List β × Nat :=
  if xs.length ≤ ys.length then
    let (out, t) := race lt .forward threshold xs ys.tail
    (ys.head?.toList ++ out, t)
  else
    let (out, t) := race lt .backward threshold xs.reverse.tail ys.reverse
    ((xs.getLast?.toList ++ out).reverse, t)

/-- The number of elements of the left run that come before all of the right one. -/
def beforeRight (lt : β → β → Bool) (xs ys : List β) : Nat :=
  match ys with
  | [] => xs.length
  | y :: _ => leading .forward (fun x => goesFirst lt .forward x y) xs

/-- The number of elements of the right run that do not come after all of the left one. -/
def notAfterLeft (lt : β → β → Bool) (xs ys : List β) : Nat :=
  match xs.getLast? with
  | none => 0
  | some x => ys.length - leading .backward (fun y => !goesFirst lt .backward x y) ys.reverse

/-- Two runs merged, with the threshold at the end: the elements of the left run that come
before all of the right one stay, those of the right run that come after all of the left one
stay, and what lies between them is merged. -/
def mergeRuns (lt : β → β → Bool) (threshold : Nat) (xs ys : List β) : List β × Nat :=
  let m := beforeRight lt xs ys
  let n := notAfterLeft lt (xs.drop m) ys
  if n = 0 then (xs ++ ys, threshold)
  else
    let (out, t) := mergeOverlap lt threshold (xs.drop m) (ys.take n)
    (xs.take m ++ out ++ ys.drop n, t)

end Tunescript.Sorting
