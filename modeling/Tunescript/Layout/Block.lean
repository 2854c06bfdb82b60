import Tunescript.Layout.Measure
import Tunescript.Score.Length
import Tunescript.Score.Line

/-!
# Layout of a block

The checkpoint lines of a score separate its blocks.  The lines of a block sound together,
so their measures are laid out together: the first measures of all lines, the second
measures, and so on.  Notes before the first bar of a line count to its first measure, and
lines that cannot be read take no part.
-/

namespace Tunescript.Layout

/-- The text of a note with its dots behind it. -/
def token (name noun : Text) : Text :=
  ('(' :: name ++ ' ' :: NoteLength.undotted noun ++ [')'])
    ++ List.replicate (noun.count Score.dot) Score.dot

/-- The room that a note needs beside its text. -/
def padding : Nat := 2

/-- The number of columns that a note needs. -/
def tokenWidth (name noun : Text) : Nat := (token name noun).length + padding

variable {α : Type} [Scalar α]

/-- The notes of a line with the numbers of their measures, after the given number of bars
and at the given time. -/
def slotsOf (bars : Nat) (time : α) : List Command → List (Nat × Slot α)
  | [] => []
  | ⟨.measure, _⟩ :: cs => slotsOf (bars + 1) Scalar.zero cs
  | ⟨.note name, noun⟩ :: cs =>
    let quarters : α := NoteLength.quarters noun
    if Scalar.atMost quarters Scalar.zero then slotsOf bars time cs
    else (bars - 1, ⟨time, quarters, Scalar.ofInt (tokenWidth name noun)⟩)
      :: slotsOf bars (time + quarters) cs
  | _ :: cs => slotsOf bars time cs

/-- The notes of a block with the numbers of their measures. -/
def blockSlots (lines : List Text) : List (Nat × Slot α) :=
  lines.flatMap fun line =>
    match Score.read line with
    | .ok cs => slotsOf 0 Scalar.zero cs
    | .error _ => []

/-- The notes of the numbered measure. -/
def slotsIn (i : Nat) (slots : List (Nat × Slot α)) : List (Slot α) :=
  slots.filterMap fun (j, s) => if j = i then some s else none

/-- The number of measures that the notes reach. -/
def measureCount (slots : List (Nat × Slot α)) : Nat :=
  slots.foldl (fun n (i, _) => max n (i + 1)) 0

/-- The layouts of the measures of a block. -/
def layoutBlock (lines : List Text) : List (List (Segment α)) :=
  let slots : List (Nat × Slot α) := blockSlots lines
  (List.range (measureCount slots)).map fun i => layoutMeasure (slotsIn i slots)

/-- The lines of a block, and the checkpoint line that ends it if there is one. -/
structure Section where
  /-- The lines of the block, none of them a checkpoint line. -/
  block : List Text
  /-- The checkpoint line after them. -/
  closing : Option Text

/-- The sections of a score. -/
def sections : List Text → List Section
  | [] => [⟨[], none⟩]
  | line :: lines =>
    if Score.isCheckpointLine line then ⟨[], some line⟩ :: sections lines
    else match sections lines with
      | [] => [⟨[line], none⟩]
      | s :: ss => ⟨line :: s.block, s.closing⟩ :: ss

/-- The numbers of the first line of each block and of the line after it, from the line
`n` on; sections without lines have no block. -/
def ranges (n : Nat) : List Section → List (Nat × Nat)
  | [] => []
  | s :: ss =>
    let stop := n + s.block.length
    let rest := ranges (stop + s.closing.toList.length) ss
    if s.block.isEmpty then rest else (n, stop) :: rest

/-- The blocks of a score as ranges of lines. -/
def blocks (lines : List Text) : List (Nat × Nat) := ranges 0 (sections lines)

end Tunescript.Layout
