import Tunescript.Text.Basic

/-!
# Commands of a score

A score is a list of commands.  A command has a verb, which says what it does, and a noun,
the text it does it with.  Seven verbs control the playing; every other verb is the name of
a note to be played.
-/

namespace Tunescript

/-- What a command does. -/
inductive Verb where
  /-- A remark, which does nothing. -/
  | comment
  /-- Sets the tempo. -/
  | tempo
  /-- Sets the time signature. -/
  | time
  /-- Starts a section after everything that has been written. -/
  | checkpoint
  /-- Chooses the voice of the notes that follow. -/
  | voice
  /-- Starts a measure. -/
  | measure
  /-- Goes back to the start of the section. -/
  | reset
  /-- Plays the note of this name. -/
  | note (name : Text)
deriving DecidableEq, Repr

namespace Verb

/-- The word for a verb. -/
def word : Verb → Text
  | comment => "comment".toList
  | tempo => "tempo".toList
  | time => "time".toList
  | checkpoint => "checkpoint".toList
  | voice => "voice".toList
  | measure => "measure".toList
  | reset => "reset".toList
  | note name => name

/-- The verbs that control the playing. -/
def controls : List Verb := [comment, tempo, time, checkpoint, voice, measure, reset]

/-- The verb that a word stands for. -/
def ofWord (w : Text) : Verb :=
  (controls.find? fun v => v.word == w).getD (note w)

/-- Whether a verb plays a note. -/
def isNote : Verb → Bool
  | note _ => true
  | _ => false

theorem word_ofWord (w : Text) :
  (ofWord w).word = w
  := by
  rw [ofWord]
  cases h : controls.find? fun v => v.word == w with
  | none => rfl
  | some v => simpa using List.find?_some h

end Verb

/-- A verb with its noun. -/
structure Command where
  /-- What the command does. -/
  verb : Verb
  /-- The text it does it with. -/
  noun : Text
deriving DecidableEq, Repr

end Tunescript
