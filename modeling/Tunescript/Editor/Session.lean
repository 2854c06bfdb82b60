import Tunescript.Editor.Buffer
import Tunescript.Editor.Settings
import Tunescript.Preview.Player
import Tunescript.Sound.Render

/-!
# Editing sessions

A session edits one score.  It has a text in a buffer, a cursor, and a history of texts and
cursors that can be gone back and forth; it tells the user about the outcome of an operation
by a message.  An operation that fails leaves the session as far as it came.
-/

namespace Tunescript

/-- What typing does. -/
inductive Mode where
  /-- Letters are commands. -/
  | normal
  /-- Letters are put into the text. -/
  | insert
deriving DecidableEq, Repr

/-- The word for a mode. -/
def Mode.word : Mode → String
  | normal => "normal"
  | insert => "insert"

/-- The texts and cursors before and after the current one, the nearest first. -/
structure History where
  /-- What undoing brings back. -/
  past : List (Snapshot × Int) := []
  /-- What redoing brings back. -/
  future : List (Snapshot × Int) := []
deriving DecidableEq, Repr

namespace History

/-- The history after an edit of the given text and cursor. -/
def record (h : History) (now : Snapshot × Int) : History := ⟨now :: h.past, []⟩

/-- The text and cursor before the given ones, and the history there. -/
def back? (h : History) (now : Snapshot × Int) : Option ((Snapshot × Int) × History) :=
  match h.past with
  | [] => none
  | s :: past => some (s, ⟨past, now :: h.future⟩)

/-- The text and cursor after the given ones, and the history there. -/
def forth? (h : History) (now : Snapshot × Int) : Option ((Snapshot × Int) × History) :=
  match h.future with
  | [] => none
  | s :: future => some (s, ⟨now :: h.past, future⟩)

end History

/-- An editing session. -/
structure Session where
  /-- The settings. -/
  settings : Settings
  /-- The player of previews. -/
  player : Player
  /-- The files that are read and written. -/
  files : Files
  /-- The text. -/
  buffer : Buffer
  /-- The file that the text is saved to. -/
  filename : Option Path
  /-- The position at which the text is edited. -/
  cursor : Int := 0
  /-- What typing does. -/
  mode : Mode := .normal
  /-- What the user is told. -/
  message : String := ""
  /-- The octave of new notes. -/
  octave : Int := settings.octave
  /-- The length of new notes. -/
  duration : Text := settings.duration
  /-- The earlier and later texts. -/
  history : History := {}

/-- Why an operation fails. -/
inductive SessionError where
  /-- A position or line does not exist. -/
  | buffer (e : BufferError)
  /-- A number lies beyond all numbers. -/
  | arithmetic (f : ArithmeticFault)
  /-- The file of the session cannot be written. -/
  | save (path : Path) (e : FileError)
  /-- The path of the session can be that of no file. -/
  | file (e : FileError)
  /-- The sound of a preview cannot be written. -/
  | wave (e : Wave.WriteError)
deriving DecidableEq, Repr

/-- The wording of a session error. -/
def SessionError.message : SessionError → String
  | buffer e => e.message
  | arithmetic f => f.message
  | save path e => "Cannot save '" ++ String.ofList path.text ++ "': " ++ e.message
  | file e => e.message
  | wave e => e.message

/-- An operation on a session.  What it did before it failed stays done. -/
abbrev Action := EStateM SessionError Session

namespace Session

/-- The session of a text. -/
def ofText (settings : Settings) (host : Host) (files : Files) (filename : Option Path)
    (t : Text) : Session where
  settings := settings
  player := { command := settings.playerCommand, host := host }
  files := files
  buffer := Buffer.ofText t
  filename := filename

/-- The session of a file.  A file that does not exist is created when it is saved. -/
def ofFile (settings : Settings) (host : Host) (files : Files) (path : Path) :
    Except Files.ReadError Session :=
  match files.readText path with
  | .ok t => .ok (ofText settings host files (some path) t)
  | .error (.file (.noEntry _)) =>
    .ok { ofText settings host files (some path) [] with
      message := "New file: " ++ String.ofList path.text }
  | .error e => .error e

/-- The text of a session. -/
def text (s : Session) : Text := s.buffer.text

/-- The text and cursor as they are kept in the history. -/
def now (s : Session) : Snapshot × Int := (s.buffer.snapshot, s.cursor)

end Session

namespace Action

/-- The result of a computation on the buffer, or its failure. -/
def ofBuffer {α : Type} : Except BufferError α → Action α
  | .ok a => pure a
  | .error e => throw (.buffer e)

/-- Tells the user something. -/
def say (message : String) : Action Unit := modify fun s => { s with message := message }

/-- Puts the cursor at a position. -/
def moveTo (cursor : Int) : Action Unit := modify fun s => { s with cursor := cursor }

/-- Puts a text into the buffer. -/
def insertAt (i : Int) (t : Text) : Action Unit := do
  let b ← ofBuffer ((← get).buffer.insert i t)
  modify fun s => { s with buffer := b }

/-- Takes a range out of the buffer. -/
def removeRange (start stop : Int) : Action Unit := do
  let b ← ofBuffer ((← get).buffer.remove start stop)
  modify fun s => { s with buffer := b }

/-- The line of the cursor. -/
def currentLine : Action Nat := do
  let s ← get
  ofBuffer (s.buffer.lineAt s.cursor)

/-- The text of a line. -/
def lineText (i : Nat) : Action Text := do ofBuffer ((← get).buffer.line i)

/-- The start of a line. -/
def lineStart (i : Nat) : Action Nat := do ofBuffer ((← get).buffer.lineStart i)

/-- Records the text and the cursor in the history, then performs an edit. -/
def edit (a : Action Unit) : Action Unit := do
  modify fun s => { s with history := s.history.record s.now }
  a

/-- Goes back to the text before the last edit. -/
def undo : Action Unit := do
  let s ← get
  match s.history.back? s.now with
  | none => say "Already at oldest change"
  | some ((snapshot, cursor), history) =>
    set { s with
      buffer := s.buffer.restore snapshot
      cursor := cursor
      history := history
      message := "Undo" }

/-- Goes forth to the text that was left by undoing. -/
def redo : Action Unit := do
  let s ← get
  match s.history.forth? s.now with
  | none => say "Already at newest change"
  | some ((snapshot, cursor), history) =>
    set { s with
      buffer := s.buffer.restore snapshot
      cursor := cursor
      history := history
      message := "Redo" }

/-- Stops the preview that is playing. -/
def stopPlayback : Action Unit := do
  let s ← get
  let (stopped, player) := s.player.stop
  set { s with player := player }
  if stopped then say "Playback stopped."

/-- Renders a score to a file in the directory of the previews and plays it. -/
def playScore [Memory] (score : Text) (fileName : String) (message : String) : Action Unit := do
  let s ← get
  let path := s.settings.previewDirectory.child fileName.toList
  match convert score s.files path 44100 with
  | .error (.render (.parse e)) => say ("Error converting: " ++ e.message)
  | .error (.render (.run (.play e))) => say ("Error converting: " ++ e.message)
  | .error (.render (.run (.arithmetic f))) => throw (.arithmetic f)
  | .error (.write (.notOpened p cause)) =>
    say ("Error converting: " ++ (Wave.WriteError.notOpened p cause).message)
  | .error (.write e) => throw (.wave e)
  | .ok (_, files) =>
    set { s with files := files }
    stopPlayback
    say message
    let s ← get
    let (failure, player) := s.player.start path.text
    set { s with player := player }
    match failure with
    | none => pure ()
    | some e => say ("Error playing: " ++ e.message)

end Action

end Tunescript
