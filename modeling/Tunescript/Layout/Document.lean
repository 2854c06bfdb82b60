import Tunescript.Layout.Row

/-!
# Formatted scores

A score is formatted block by block, so that notes that sound together start in one column.
Comment lines and lines that cannot be read stay as they are.  At the end every checkpoint
line is drawn again, all of them as wide as the longest other line, but at least of a fixed
width.
-/

namespace Tunescript.Layout

/-- The least width of a checkpoint line. -/
def leastCheckpointWidth : Nat := 79

variable [Memory] {α : Type} [Scalar α]

/-- A line written with the layouts of its block. -/
def formatLine (layouts : List (List (Segment α))) (line : Text) : Except ArithmeticFault Text :=
  if Score.isCommentLine line then .ok line
  else match Score.read line with
    | .error _ => .ok line
    | .ok cs => do
      let written ← renderLine cs layouts
      return if Text.endsLine line then written ++ ['\n'] else written

/-- The lines of a block written with its layouts. -/
def formatBlock (lines : List Text) : Except ArithmeticFault (List Text) :=
  lines.mapM (formatLine (layoutBlock lines : List (List (Segment α))))

/-- The lines of the given sections, with every block formatted. -/
def formatSections : List Section → Except ArithmeticFault (List Text)
  | [] => .ok []
  | s :: ss => do
    let lines ← formatBlock (α := α) s.block
    let rest ← formatSections ss
    return lines ++ s.closing.toList ++ rest

/-- The width of the checkpoint lines among the given lines. -/
def checkpointWidth (lines : List Text) : Nat :=
  (lines.filter fun line => !Score.isCheckpointLine line).foldl
    (fun n line => max n (Text.trimEnd line).length) leastCheckpointWidth

/-- A line as it stands when the checkpoint lines have the given width. -/
def drawLine (width : Nat) (line : Text) : Text :=
  if Score.isCheckpointLine line then
    List.replicate width Score.checkpointMark ++ (if Text.endsLine line then ['\n'] else [])
  else line

/-- The lines with every checkpoint line drawn to one width. -/
def drawCheckpoints (lines : List Text) : List Text :=
  lines.map (drawLine (checkpointWidth lines))

/-- The formatted text, with widths computed in the given arithmetic. -/
def formatIn (α : Type) [Scalar α] (t : Text) : Except ArithmeticFault Text := do
  let lines ← formatSections (α := α) (sections (Text.lines t))
  return (drawCheckpoints lines).flatten

/-- The formatted text. -/
def format (t : Text) : Except ArithmeticFault Text := formatIn Float t

end Tunescript.Layout
