import Tunescript.Editor.Session
import Tunescript.Layout.Document
import Tunescript.Preview.Score
import Tunescript.Score.Address
import Tunescript.Text.Uppercase

/-!
# Edits

The operations that change the text of a session.  Each of them is one step of the history,
however many changes it is made of.
-/

namespace Tunescript.Action

variable [Memory]

/-- Plays a note in the voice at the cursor. -/
def playNote (note : Text) : Action Unit := do
  let s ← get
  playScore (Preview.noteScore note (Score.voiceAt s.text s.cursor)) "hum_note_preview.wav"
    "Playing note..."

/-- Puts a text in at the cursor and moves behind it. -/
def putSnippet (t : Text) : Action Unit := do
  insertAt (← get).cursor t
  modify fun s => { s with cursor := s.cursor + t.length }
  say ("Inserted snippet: '" ++ String.ofList (Text.trim t) ++ "'")

/-- Opens a line below the line of the cursor and moves to it. -/
def openLine : Action Unit := do
  let i ← currentLine
  let line ← lineText i
  let stop := (← lineStart i) + line.length
  insertAt stop ['\n']
  moveTo (if Text.endsLine line then stop else stop + 1)

/-- Clears the line of the cursor if it is blank, or else opens a line below it. -/
def prepareLine : Action Unit := do
  let i ← currentLine
  let line ← lineText i
  if (Text.trim line).isEmpty then
    let start ← lineStart i
    let stop := start + (Text.withoutLineEnd line).length
    if start < stop then removeRange start stop
    moveTo start
  else openLine

/-- The fraction and the dots of a length setting; the dots start at its first dot. -/
def splitDuration (duration : Text) : Text × Text :=
  (duration.takeWhile (· != Score.dot), duration.dropWhile (· != Score.dot))

/-- The text of a new note or rest. -/
def newNote (pitch : Text) : Action Text := do
  let s ← get
  let (fraction, dots) := splitDuration s.duration
  let name := if pitch = Pitch.rest then pitch else Pitch.name pitch s.octave
  return Score.noteText name fraction dots

/-- Types a text. -/
def insertChar (t : Text) : Action Unit := edit do
  insertAt (← get).cursor t
  modify fun s => { s with cursor := s.cursor + t.length }

/-- Deletes the character before the cursor. -/
def deleteChar : Action Unit := edit do
  let cursor := (← get).cursor
  if 0 < cursor then
    removeRange (cursor - 1) cursor
    moveTo (cursor - 1)

/-- Puts a text in at the cursor. -/
def insertSnippet (t : Text) : Action Unit := edit (putSnippet t)

/-- Puts a tab stop in at the cursor. -/
def insertTab : Action Unit := edit (putSnippet "    ".toList)

/-- Opens a line below the line of the cursor. -/
def insertLineBelow : Action Unit := edit openLine

/-- Puts the cursor back into the text if the text became shorter. -/
def keepCursor : Action Unit :=
  modify fun s => { s with cursor := min s.cursor s.buffer.length }

/-- Deletes the line of the cursor. -/
def deleteLine : Action Unit := edit do
  let i ← currentLine
  let start ← lineStart i
  let b := (← get).buffer
  let stop ← if i + 1 < b.lineCount then lineStart (i + 1) else pure b.length
  removeRange start stop
  keepCursor
  say "Deleted line"

/-- Ends the line of the cursor with a reset and opens a line below it. -/
def appendReset : Action Unit := edit do
  let i ← currentLine
  let line ← lineText i
  let stop := (← lineStart i) + (Text.dropEndWhile (· == '\n') line).length
  insertAt stop [Score.resetMark]
  moveTo (stop + 1)
  openLine
  say "Inserted reset and newline"

/-- Inserts a checkpoint line with a blank line above it and moves below it. -/
def insertCheckpoint (length : Option Int) : Action Unit := edit do
  let length := length.getD (← get).settings.checkpointLength
  prepareLine
  let i ← currentLine
  if 0 < i then
    let above ← lineText (i - 1)
    if !(Text.trim above).isEmpty then openLine
  match Capacity.ofText length with
  | .error f => throw (.arithmetic f)
  | .ok stars => putSnippet (List.replicate stars Score.checkpointMark)
  openLine
  openLine
  say "Inserted checkpoint"

/-- Starts a voice line and waits for the name of the voice. -/
def insertVoice : Action Unit := edit do
  prepareLine
  putSnippet "% ".toList
  modify fun s => { s with mode := .insert, message := "Enter voice name" }

/-- Formats the text. -/
def formatText : Action Unit := edit do
  match Layout.format (← get).text with
  | .error f => throw (.arithmetic f)
  | .ok t =>
    modify fun s => { s with buffer := Buffer.ofText t }
    keepCursor
    say "Formatted file"

/-- The gap behind a new note. -/
def noteGap : Text := "  ".toList

/-- Inserts a natural note with the current octave and length and plays it. -/
def insertNote (letter : Text) : Action Unit := edit do
  let note ← newNote (Text.upper letter ++ ['n'])
  putSnippet (note ++ noteGap)
  playNote note

/-- Inserts a rest with the current length. -/
def insertRest : Action Unit := edit do
  putSnippet ((← newNote Pitch.rest) ++ noteGap)

/-- Deletes the note at the cursor, or else the word, with a space behind it. -/
def deleteNote : Action Unit := edit do
  let s ← get
  match (Score.noteAt? s.text s.cursor).or (Score.wordAt? s.text s.cursor) with
  | none => pure ()
  | some span =>
    let removed := s.buffer.slice span.start (some span.stop)
    removeRange span.start span.stop
    let b := (← get).buffer
    if b.text[span.start]? = some ' ' then removeRange span.start (span.start + 1)
    moveTo span.start
    say ("Deleted " ++ String.ofList removed)

/-- Transposes the note at the cursor and plays it. -/
def transposeNote (delta : Int) : Action Unit := edit do
  let s ← get
  match Score.pitchAt? s.text s.cursor with
  | none => pure ()
  | some span =>
    match Pitch.split? (s.buffer.slice span.start (some span.stop)) with
    | none => say "Failed to parse note for transposition"
    | some (pitch, octave) =>
      match Pitch.transpose pitch octave delta with
      | .error e => say e.message
      | .ok (pitch, octave) =>
        let name := Pitch.name pitch octave
        removeRange span.start span.stop
        insertAt span.start name
        say ("Transposed to " ++ String.ofList name)
        let s ← get
        match Score.noteAt? s.text s.cursor with
        | none => pure ()
        | some note => playNote (s.buffer.slice note.start (some note.stop))

end Tunescript.Action
