import Tunescript.Number.Sorting

/-!
# Layout of a measure

The notes of all voices in a measure share its columns.  Every start and end of a note cuts
the measure, and each segment between two cuts has a width.  The notes are visited from the
shortest to the longest; where the segments under a note are too narrow for it, the missing
width is spread over them in proportion to their duration, so that widths only grow.
-/

namespace Tunescript.Layout

/-- A note as it takes part in a layout. -/
structure Slot (α : Type) where
  /-- The quarter notes from the start of the measure. -/
  start : α
  /-- The length in quarter notes. -/
  duration : α
  /-- The number of columns it needs. -/
  minWidth : α

/-- A part of a measure between two cuts. -/
structure Segment (α : Type) where
  /-- Its start in quarter notes. -/
  start : α
  /-- Its end in quarter notes. -/
  stop : α
  /-- Its width in columns. -/
  width : α

variable {α : Type} [Scalar α]

/-- The end of a note in quarter notes. -/
def Slot.stop (s : Slot α) : α := s.start + s.duration

namespace Segment

/-- The duration of a segment. -/
def duration (s : Segment α) : α := s.stop - s.start

/-- Whether the middle of a segment lies between two times, the first included. -/
def liesWithin (start stop : α) (s : Segment α) : Bool :=
  let middle := (s.start + s.stop) / Scalar.ofInt 2
  Scalar.atMost start middle && Scalar.less middle stop

end Segment

/-- The width of the segments between two times. -/
def widthBetween (segments : List (Segment α)) (start stop : α) : α :=
  Scalar.sum ((segments.filter (Segment.liesWithin start stop)).map Segment.width)

/-- The distance from which on two cuts are kept apart. -/
def tolerance : α := Scalar.fraction 1 1000000

/-- The times that keep their distance from the last one that was kept. -/
def spacedAfter (last : α) : List α → List α
  | [] => []
  | p :: ps =>
    if Scalar.atMost tolerance (Scalar.distance p last) then p :: spacedAfter p ps
    else spacedAfter last ps

/-- The times without those that stand too close to the one before them. -/
def spaced : List α → List α
  | [] => []
  | p :: ps => p :: spacedAfter p ps

/-- The times at which the notes cut a measure, its start among them. -/
def cuts (slots : List (Slot α)) : List α :=
  spaced (Scalar.sortBy id (Scalar.zero :: slots.flatMap fun s => [s.start, s.stop]))

/-- The segments between the cuts, without width. -/
def segments (slots : List (Slot α)) : List (Segment α) :=
  let points := cuts slots
  (points.zip points.tail).map fun (a, b) => ⟨a, b, Scalar.zero⟩

/-- The segments, wide enough for a note. -/
def widen (segments : List (Segment α)) (s : Slot α) : List (Segment α) :=
  let covered := segments.filter (Segment.liesWithin s.start s.stop)
  let width := Scalar.sum (covered.map Segment.width)
  let total := Scalar.sum (covered.map Segment.duration)
  if Scalar.less width s.minWidth && Scalar.less Scalar.zero total then
    let deficit := s.minWidth - width
    segments.map fun g =>
      if g.liesWithin s.start s.stop then { g with width := g.width + deficit * g.duration / total }
      else g
  else segments

/-- The segments of a measure with the given notes. -/
def layoutMeasure (slots : List (Slot α)) : List (Segment α) :=
  (Scalar.sortBy Slot.duration slots).foldl widen (segments slots)

end Tunescript.Layout
