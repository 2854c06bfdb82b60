import Tunescript.Sorting.Merge

/-!
# Sorting by runs

A list is cut into runs, which are in order already or fall strictly and are turned round;
a run that is too short is made longer by inserting what follows.  Runs are then merged with
their neighbours.  Two neighbours meet at a boundary of some depth, the number of times that
the list has to be halved until their middles lie in different parts, and the deepest
boundaries are removed first, so that runs of like lengths meet.  Elements neither of which
is less than the other keep their order.
-/

namespace Tunescript.Sorting

variable {β : Type}

/-- The longest chain of related neighbours that goes on from an element, and what follows
it. -/
def chain (related : β → β → Bool) (x : β) : List β → List β × List β
  | [] => ([], [])
  | y :: ys =>
    if related x y then
      let (run, rest) := chain related y ys
      (y :: run, rest)
    else ([], y :: ys)

/-- The run that a list starts with, in order, and what follows it. -/
def naturalRun (lt : β → β → Bool) : List β → List β × List β
  | [] => ([], [])
  | x :: xs =>
    let falling := xs.head?.any fun y => lt y x
    let (run, rest) := chain (fun a b => lt b a == falling) x xs
    (if falling then (x :: run).reverse else x :: run, rest)

/-- A run with an element put behind those that are not greater. -/
def insert (lt : β → β → Bool) (run : List β) (x : β) : List β :=
  let n := bisect .forward (fun y => !lt x y) run
  run.take n ++ x :: run.drop n

/-- The least length of a run in a list of the given length: the length in units of the least
power of two of which it has fewer than 64, rounded up. -/
def leastRun (n : Nat) : Nat :=
  let unit := Nat.pow 2 (n.log2 - 5)
  (n + unit - 1) / unit

theorem chain_append (related : β → β → Bool) (x : β) (xs : List β) :
  (chain related x xs).1 ++ (chain related x xs).2 = xs
  := by
  induction xs generalizing x with
  | nil => rfl
  | cons y ys ih =>
    rw [chain]
    split
    · exact congrArg (y :: ·) (ih y)
    · rfl

/-- The runs of a list, none but the last shorter than the given length. -/
def runs (lt : β → β → Bool) (least : Nat) : List β → List (List β)
  | [] => []
  | x :: xs =>
    let found := naturalRun lt (x :: xs)
    let missing := least - found.1.length
    (found.2.take missing).foldl (insert lt) found.1 :: runs lt least (found.2.drop missing)
termination_by xs => xs.length
decreasing_by
  have := congrArg List.length
    (chain_append (fun a b => lt b a == xs.head?.any fun y => lt y x) x xs)
  simp only [naturalRun, List.length_drop, List.length_append, List.length_cons] at *
  omega

/-- The number of halvings, within a limit, that leave two places in the same part, given in
parts of the length `n`. -/
def commonHalvings (n : Nat) : (limit : Nat) → (a b : Nat) → Nat
  | 0, _, _ => 0
  | limit + 1, a, b =>
    if a / n = b / n then commonHalvings n limit (2 * a) (2 * b) + 1 else 0

/-- The depth of the boundary between two neighbouring runs in a list of length `n`, of which
the left one has the given start. -/
def boundaryDepth (n start leftLength rightLength : Nat) : Nat :=
  let middle := 2 * start + leftLength
  commonHalvings n n middle (middle + leftLength + rightLength)

/-- The runs that wait to be merged with the last one, nearest first, each with the depth of
its boundary to the next one. -/
abbrev Waiting (β : Type) := List (Nat × List β)

/-- Merges the last run with those before it whose boundary is deeper than the given
depth. -/
def collapse (lt : β → β → Bool) (depth : Nat) :
    (threshold : Nat) → Waiting β → (last : List β) → Nat × Waiting β × List β
  | threshold, (d, run) :: waiting, last =>
    if depth < d then
      let (merged, t) := mergeRuns lt threshold run last
      collapse lt depth t waiting merged
    else (threshold, (d, run) :: waiting, last)
  | threshold, [], last => (threshold, [], last)

/-- Merges the runs, the last one first, until one is left: the last two, or, when the third
is shorter than the last, the two before the last. -/
def mergeAll (lt : β → β → Bool) : (threshold : Nat) → List (List β) → List β
  | _, [] => []
  | _, [run] => run
  | threshold, [last, previous] => (mergeRuns lt threshold previous last).1
  | threshold, last :: previous :: third :: waiting =>
    if third.length < last.length then
      let (merged, t) := mergeRuns lt threshold third previous
      mergeAll lt t (last :: merged :: waiting)
    else
      let (merged, t) := mergeRuns lt threshold previous last
      mergeAll lt t (merged :: third :: waiting)
termination_by _ runs => runs.length

/-- Merges runs in a list of length `n`, of which the last one that was found starts at the
given place. -/
def mergeFrom (lt : β → β → Bool) (n : Nat) :
    (start threshold : Nat) → Waiting β → (last : List β) → (next : List (List β)) → List β
  | _, threshold, waiting, last, [] => mergeAll lt threshold (last :: waiting.map Prod.snd)
  | start, threshold, waiting, last, run :: next =>
    let depth := boundaryDepth n start last.length run.length
    let (t, rest, merged) := collapse lt depth threshold waiting last
    mergeFrom lt n (start + last.length) t ((depth, merged) :: rest) run next

/-- The threshold with which the first merge starts. -/
def startThreshold : Nat := Race.longLeap

/-- The list in order. -/
def sort (lt : β → β → Bool) (xs : List β) : List β :=
  match runs lt (leastRun xs.length) xs with
  | [] => []
  | run :: next => mergeFrom lt xs.length 0 startThreshold [] run next

end Tunescript.Sorting
