import Tunescript.Editor.Session
import Tunescript.Pitch.Spelling
import Tunescript.Preview.Score
import Tunescript.Score.Address

/-!
# Moves, settings and files

The operations of a session that do not change its text: setting the octave and the length
of new notes, moving the cursor, saving the text and playing it.
-/

namespace Tunescript.Action

/-- Sets the length of new notes. -/
def setDuration (duration : Text) : Action Unit :=
  modify fun s => { s with
    duration := duration
    message := "Duration: " ++ String.ofList duration }

/-- Adds a dot to the length of new notes. -/
def addDot : Action Unit := modify fun s => { s with duration := s.duration ++ [Score.dot] }

/-- Takes a dot from the end of the length of new notes. -/
def removeDot : Action Unit :=
  modify fun s =>
    if s.duration.getLast? = some Score.dot then { s with duration := s.duration.dropLast } else s

/-- Sets the octave of new notes. -/
def setOctave (octave : Int) : Action Unit :=
  modify fun s => { s with octave := octave, message := "Octave: " ++ toString octave }

/-- Raises the octave of new notes. -/
def raiseOctave : Action Unit := do
  let octave := (← get).octave
  if octave < Pitch.highestOctave then setOctave (octave + 1)

/-- Lowers the octave of new notes. -/
def lowerOctave : Action Unit := do
  let octave := (← get).octave
  if Pitch.lowestOctave < octave then setOctave (octave - 1)

/-- Moves to the character before the cursor. -/
def moveLeft : Action Unit :=
  modify fun s => if 0 < s.cursor then { s with cursor := s.cursor - 1 } else s

/-- Moves to the character after the cursor. -/
def moveRight : Action Unit :=
  modify fun s => if s.cursor < s.buffer.length then { s with cursor := s.cursor + 1 } else s

/-- Moves to the column of the cursor in another line, but not onto its line end. -/
def moveToLine (i : Nat) : Action Unit := do
  let column := (← get).cursor - (← lineStart (← currentLine))
  let length := (← lineText i).length
  moveTo ((← lineStart i) + min column (length - 1 : Nat))

/-- Moves to the line above. -/
def moveUp : Action Unit := do
  let i ← currentLine
  if 0 < i then moveToLine (i - 1)

/-- Moves to the line below. -/
def moveDown : Action Unit := do
  let i ← currentLine
  if i + 1 < (← get).buffer.lineCount then moveToLine (i + 1)

/-- Moves to the next bar, or else to the end of the line. -/
def moveToNextMeasure : Action Unit := do
  let s ← get
  match Text.indexFrom? Score.measureMark s.text (s.cursor + 1) with
  | some i => moveTo i
  | none =>
    let i ← currentLine
    let line ← lineText i
    moveTo ((← lineStart i) + (Text.dropEndWhile (· == '\n') line).length)
    say "Moved to end of line"

/-- Moves to the bar before the cursor, or else to the start of the line. -/
def moveToPreviousMeasure : Action Unit := do
  let s ← get
  if s.cursor ≠ 0 then
    match Text.lastIndexBefore? Score.measureMark s.text s.cursor with
    | some i => moveTo i
    | none =>
      moveTo (← lineStart (← currentLine))
      say "Moved to start of line"

/-- Moves to the next note. -/
def moveToNextNote : Action Unit := do
  let s ← get
  match Text.indexFrom? Score.noteOpening s.text (s.cursor + 1) with
  | some i => moveTo i
  | none => say "No next note found"

/-- Moves to the note before the cursor. -/
def moveToPreviousNote : Action Unit := do
  let s ← get
  if s.cursor ≠ 0 then
    match Text.lastIndexBefore? Score.noteOpening s.text s.cursor with
    | some i => moveTo i
    | none => say "No previous note found"

/-- Writes the text to the file of the session. -/
def saveFile : Action Unit := do
  let s ← get
  match s.filename with
  | none => say "No filename specified"
  | some path =>
    match s.files.writeText path s.text with
    | .error e => throw (if e.isSystem then .save path e else .file e)
    | .ok files =>
      set { s with files := files }
      say ("Saved to " ++ String.ofList path.text)

/-- Plays the text. -/
def playFile [Memory] : Action Unit := do
  playScore (← get).text "hum_full_playback.wav" "Playing file..."

/-- Plays the section at the cursor. -/
def playFromCursor [Memory] : Action Unit := do
  let s ← get
  let score ← ofBuffer (Preview.sectionScore s.text s.cursor)
  playScore score "hum_section_preview.wav" "Playing section..."

/-- Ends the session: no preview goes on playing. -/
def close : Action Unit :=
  modify fun s => { s with player := s.player.stop.2 }

end Tunescript.Action
