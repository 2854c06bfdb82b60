import Tunescript.Editor.Buffer
import Tunescript.Score.Line

/-!
# Scores of previews

A preview plays a part of a score as a score of its own.  A single note gets a header of its
own.  A section runs from the checkpoint line at or above the cursor to the end of the score,
below the last lines before it that set the tempo, the time signature and the voice.
-/

namespace Tunescript.Preview

/-- The header of the score of a note. -/
def noteHeader : Text := "[ 120_bpm ][ 4/4 ] % ".toList

/-- The score of a single note in a voice. -/
def noteScore (note voice : Text) : Text :=
  noteHeader ++ voice ++ " | ".toList ++ note ++ " ;".toList

/-- The nearest lines that set what has not been set yet, in the order of the score; the
given lines run upwards. -/
def contextOf (tempo time voice : Bool) : List Text → List Text
  | [] => []
  | line :: above =>
    let newTempo := !tempo && Score.isTempoLine line
    let newTime := !time && Score.isTimeLine line
    let newVoice := !voice && Score.isVoiceLine line
    let rest := contextOf (tempo || newTempo) (time || newTime) (voice || newVoice) above
    if newTempo || newTime || newVoice then rest ++ [line] else rest

/-- The lines above a line that set the tempo, the time signature and the voice last. -/
def context (lines : List Text) (stop : Nat) : List Text :=
  contextOf false false false (lines.take stop).reverse

/-- The number of the last checkpoint line among the first lines. -/
def lastCheckpoint? (lines : List Text) (count : Nat) : Option Nat :=
  ((lines.take count).reverse.findIdx? Score.isCheckpointLine).map fun k =>
    (lines.take count).length - 1 - k

/-- The number of the checkpoint line at or above the line of a cursor. -/
def checkpointAbove (b : Buffer) (cursor : Int) : Except BufferError (Option Nat) := do
  let i ← b.lineAt cursor
  return lastCheckpoint? b.lines (i + 1)

/-- The score of the section at a cursor; the whole score without a checkpoint above. -/
def sectionScore (t : Text) (cursor : Int) : Except BufferError Text := do
  let b := Buffer.ofText t
  match ← checkpointAbove b cursor with
  | none => return t
  | some i => return (context b.lines i ++ b.lines.drop i).flatten

end Tunescript.Preview
