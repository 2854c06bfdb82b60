import Tunescript.Proofs.Editor.Outcome

/-!
# Runs of operations

What a user can do to a session: an edit, which is a step of the history; undoing and redoing;
one of the other operations, which leave the text alone; and putting the cursor somewhere.  A
run goes on after an operation that failed, with the session that the failure left
(`Session.run`); `Session.run?` follows the runs in which no operation fails.
-/

namespace Tunescript

/-- The operations that are steps of the history. -/
inductive Edit where
  /-- Types a text. -/
  | insertChar (t : Text)
  /-- Deletes the character before the cursor. -/
  | deleteChar
  /-- Puts a text in. -/
  | insertSnippet (t : Text)
  /-- Puts a tab stop in. -/
  | insertTab
  /-- Opens a line below. -/
  | insertLineBelow
  /-- Deletes the line. -/
  | deleteLine
  /-- Ends the line with a reset. -/
  | appendReset
  /-- Inserts a checkpoint line of a length. -/
  | insertCheckpoint (length : Option Int)
  /-- Starts a voice line. -/
  | insertVoice
  /-- Formats the text. -/
  | formatText
  /-- Inserts a note. -/
  | insertNote (letter : Text)
  /-- Inserts a rest. -/
  | insertRest
  /-- Deletes the note or word at the cursor. -/
  | deleteNote
  /-- Transposes the note at the cursor. -/
  | transposeNote (delta : Int)
  /-- Records the text and the cursor without changing them. -/
  | record

/-- The operations that change neither the text nor the history. -/
inductive Gesture where
  /-- Sets the length of new notes. -/
  | setDuration (duration : Text)
  /-- Adds a dot to the length of new notes. -/
  | addDot
  /-- Takes a dot from the length of new notes. -/
  | removeDot
  /-- Raises the octave of new notes. -/
  | raiseOctave
  /-- Lowers the octave of new notes. -/
  | lowerOctave
  /-- Moves to the character before. -/
  | moveLeft
  /-- Moves to the character after. -/
  | moveRight
  /-- Moves to the line above. -/
  | moveUp
  /-- Moves to the line below. -/
  | moveDown
  /-- Moves to the next bar. -/
  | moveToNextMeasure
  /-- Moves to the bar before. -/
  | moveToPreviousMeasure
  /-- Moves to the next note. -/
  | moveToNextNote
  /-- Moves to the note before. -/
  | moveToPreviousNote
  /-- Saves the text. -/
  | saveFile
  /-- Plays the text. -/
  | playFile
  /-- Plays the section at the cursor. -/
  | playFromCursor
  /-- Plays a note. -/
  | playNote (note : Text)
  /-- Stops the preview. -/
  | stopPlayback
  /-- Ends the session. -/
  | close

/-- The operations on a session. -/
inductive Operation where
  /-- A step of the history. -/
  | edit (e : Edit)
  /-- Goes back in the history. -/
  | undo
  /-- Goes forth in the history. -/
  | redo
  /-- An operation that changes neither the text nor the history. -/
  | gesture (g : Gesture)
  /-- Puts the cursor at a position from outside. -/
  | place (cursor : Int)

section Actions

variable [Memory]

/-- What an edit does. -/
def Edit.action : Edit → Action Unit
  | insertChar t => Action.insertChar t
  | deleteChar => Action.deleteChar
  | insertSnippet t => Action.insertSnippet t
  | insertTab => Action.insertTab
  | insertLineBelow => Action.insertLineBelow
  | deleteLine => Action.deleteLine
  | appendReset => Action.appendReset
  | insertCheckpoint length => Action.insertCheckpoint length
  | insertVoice => Action.insertVoice
  | formatText => Action.formatText
  | insertNote letter => Action.insertNote letter
  | insertRest => Action.insertRest
  | deleteNote => Action.deleteNote
  | transposeNote delta => Action.transposeNote delta
  | record => Action.edit (pure ())

/-- What a gesture does. -/
def Gesture.action : Gesture → Action Unit
  | setDuration duration => Action.setDuration duration
  | addDot => Action.addDot
  | removeDot => Action.removeDot
  | raiseOctave => Action.raiseOctave
  | lowerOctave => Action.lowerOctave
  | moveLeft => Action.moveLeft
  | moveRight => Action.moveRight
  | moveUp => Action.moveUp
  | moveDown => Action.moveDown
  | moveToNextMeasure => Action.moveToNextMeasure
  | moveToPreviousMeasure => Action.moveToPreviousMeasure
  | moveToNextNote => Action.moveToNextNote
  | moveToPreviousNote => Action.moveToPreviousNote
  | saveFile => Action.saveFile
  | playFile => Action.playFile
  | playFromCursor => Action.playFromCursor
  | playNote note => Action.playNote note
  | stopPlayback => Action.stopPlayback
  | close => Action.close

/-- What an operation does. -/
def Operation.action : Operation → Action Unit
  | edit e => e.action
  | undo => Action.undo
  | redo => Action.redo
  | gesture g => g.action
  | place cursor => Action.moveTo cursor

namespace Session

/-- The session after an operation, also if it fails. -/
def perform (s : Session) (op : Operation) : Session := op.action.after s

/-- The session after some operations. -/
def run (s : Session) (ops : List Operation) : Session := ops.foldl perform s

/-- The session after an operation, if it does not fail. -/
def perform? (s : Session) (op : Operation) : Option Session :=
  match EStateM.run op.action s with
  | .ok _ t => some t
  | .error _ _ => none

/-- An operation that cannot fail succeeds. -/
theorem exists_perform?_of_meets {s : Session} {op : Operation} {P : Session → Prop}
    (h : op.action.Meets s (fun _ => False) fun _ => P) :
  ∃ t, s.perform? op = some t ∧ P t
  := by
  rw [Action.Meets] at h
  rw [perform?]
  cases hrun : EStateM.run op.action s with
  | ok x t =>
    rw [hrun] at h
    use t, rfl, h
  | error e t =>
    rw [hrun] at h
    cases h.2

/-- An operation that cannot succeed fails. -/
theorem perform?_eq_none_of_meets {s : Session} {op : Operation} {E : Session → Prop}
    (h : op.action.Meets s E fun _ _ => False) :
  s.perform? op = none ∧ E (s.perform op)
  := by
  rw [Action.Meets] at h
  rw [perform?, perform, Action.after]
  cases hrun : EStateM.run op.action s with
  | ok x t =>
    rw [hrun] at h
    cases h
  | error e t =>
    rw [hrun] at h
    use rfl, h.2

/-- The session after some operations, if none of them fails. -/
def run? (s : Session) : List Operation → Option Session
  | [] => some s
  | op :: ops => (s.perform? op).bind fun t => t.run? ops

/-- Whether each of some operations meets a condition with the session that it is done to. -/
def Along (P : Session → Operation → Prop) : Session → List Operation → Prop
  | _, [] => True
  | s, op :: ops => P s op ∧ Along P (s.perform op) ops

end Session

end Actions

namespace Session

/-- A session as it starts, with a text or a file. -/
structure Fresh (s : Session) : Prop where
  /-- The cursor is at the start of the text. -/
  cursor : s.cursor = 0
  /-- There is nothing to go back or forth to. -/
  history : s.history = {}

theorem fresh_ofText (settings : Settings) (host : Host) (files : Files) (filename : Option Path)
    (t : Text) :
  (ofText settings host files filename t).Fresh
  := ⟨rfl, rfl⟩

end Session

end Tunescript
