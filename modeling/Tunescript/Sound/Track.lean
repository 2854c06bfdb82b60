import Tunescript.Number.Capacity
import Tunescript.Text.Index

/-!
# Tracks

A track is a growing row of samples into which sounds are mixed by addition.  Its cells are
kept with a silent reserve behind the last sound; when a sound runs past the cells, they at
least double in number, so that appending sounds costs constant time a sample on average.

A sound may also be mixed in at a signed place, which counts back from the last cell if it is
negative; there it has to meet as many cells as it has samples.  What it puts into the reserve
is heard when a later sound ends behind it, unless the track got new cells before that.
-/

namespace Tunescript

/-- A row of samples with reserve. -/
structure Track (α : Type) where
  /-- The samples followed by the reserve. -/
  cells : Array α
  /-- The number of samples. -/
  length : Nat
deriving Repr

namespace Track

variable {α : Type}

/-- The track without samples. -/
def empty : Track α := ⟨#[], 0⟩

/-- The samples of a track, up to the end of the last sound. -/
def samples (t : Track α) : Array α := t.cells.extract 0 t.length

variable [Add α] [OfNat α 0]

/-- The cells of a track, at least `size` of them.  New cells take over the samples and leave
a silent reserve behind them. -/
def reserve (t : Track α) (size : Nat) : Array α :=
  if size ≤ t.cells.size then t.cells
  else t.samples ++ Array.replicate (max size (2 * t.cells.size) - t.samples.size) 0

/-- The cells with a row of samples added to them from a start on. -/
def addAt (cells : Array α) (start : Nat) (xs : Array α) : Array α :=
  Nat.fold xs.size (fun i h cells => cells.modify (start + i) (· + xs[i])) cells

/-- The track with a row of samples mixed in from a start on. -/
def mix (t : Track α) (start : Nat) (xs : Array α) : Track α :=
  let stop := start + xs.size
  ⟨addAt (t.reserve stop) start xs, max t.length stop⟩

/-- Why a row of samples cannot be mixed in at a signed place. -/
inductive MixError where
  /-- There is no room for the track. -/
  | arithmetic (f : ArithmeticFault)
  /-- The number of cells at the place is not that of the samples. -/
  | unequal (cells samples : Nat)
deriving DecidableEq, Repr

/-- The wording of a mix error. -/
def MixError.message : MixError → String
  | arithmetic f => f.message
  | unequal cells samples =>
    let shape (n : Nat) := "(" ++ toString n ++ ",)"
    if cells = 1 then
      "non-broadcastable output operand with shape " ++ shape cells
        ++ " doesn't match the broadcast shape " ++ shape samples
    else
      "operands could not be broadcast together with shapes " ++ shape cells ++ " "
        ++ shape samples ++ " " ++ shape cells ++ " "

/-- The track with a row of samples mixed in from a signed place on.  A single sample that
meets no cell is dropped. -/
def mixAt [Memory] (t : Track α) (place : Int) (xs : Array α) : Except MixError (Track α) := do
  let stop := place + xs.size
  let size ← (Capacity.ofTrack stop.toNat).mapError .arithmetic
  let cells := t.reserve size
  let first := Text.bound cells.size place
  let met := Text.bound cells.size stop - first
  if met = xs.size then return ⟨addAt cells first xs, max t.length size⟩
  else if xs.size = 1 then return ⟨cells, max t.length size⟩
  else throw (.unequal met xs.size)

omit [Add α] in
theorem size_le_size_reserve (t : Track α) (size : Nat) :
  size ≤ (t.reserve size).size
  := by
  unfold reserve
  split
  · assumption
  · simp only [Array.size_append, Array.size_replicate]
    omega

/-- A place that is not negative is where a sound starts. -/
theorem mixAt_natCast [Memory] (t : Track α) (start : Nat) (xs : Array α) :
  t.mixAt start xs = ((Capacity.ofTrack (start + xs.size)).mapError .arithmetic).map
    fun _ => t.mix start xs
  := by
  have hstop : ((start : Int) + xs.size).toNat = start + xs.size := by omega
  simp only [mixAt, hstop]
  cases h : Capacity.ofTrack (start + xs.size) with
  | error f => rfl
  | ok size =>
    obtain rfl := Capacity.eq_of_ofTrack h
    have hsize := size_le_size_reserve t (start + xs.size)
    have hfirst : Text.bound (t.reserve (start + xs.size)).size (start : Int) = start := by
      apply Text.bound_eq_of_le
      omega
    have hlast : Text.bound (t.reserve (start + xs.size)).size ((start : Int) + xs.size)
        = start + xs.size := Text.bound_eq_of_le hsize
    have hmet : Text.bound (t.reserve (start + xs.size)).size ((start : Int) + xs.size)
        - Text.bound (t.reserve (start + xs.size)).size (start : Int) = xs.size := by omega
    apply (if_pos hmet).trans
    rw [hfirst]
    rfl

end Track

end Tunescript
