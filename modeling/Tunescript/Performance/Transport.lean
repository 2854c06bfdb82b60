import Tunescript.Pitch.Frequency
import Tunescript.Score.Length
import Tunescript.Sound.Oscillator

/-!
# The transport

The transport is the place in time at which a score is being played.  Measures are slots of
one duration each: measure `i` starts at `i` times that duration, and the notes of a measure
follow one another from its start.  A checkpoint remembers the measure after the furthest
one, and a reset goes back so that the next measure is that one again.
-/

namespace Tunescript

/-- A note or rest as it is placed in time. -/
structure Event (α : Type) where
  /-- The name of the note. -/
  name : Text
  /-- The frequency in Hz, undefined for a rest. -/
  frequency : Float
  /-- The voice that plays it. -/
  voice : Text
  /-- The seconds from the start of the track. -/
  start : α
  /-- The length in seconds. -/
  duration : α
  /-- The measure it belongs to. -/
  measureIndex : Int

/-- Whether an event is a rest. -/
def Event.isRest {α : Type} (e : Event α) : Bool := e.frequency.isNaN

/-- The state of the playing. -/
structure Transport (α : Type) where
  /-- The tempo. -/
  beatsPerSecond : α
  /-- The measure that is being written, one below zero before the first. -/
  measureIndex : Int
  /-- The furthest measure that has been written. -/
  greatestIndex : Int
  /-- The measure after the latest checkpoint. -/
  checkpointIndex : Int
  /-- The length of a measure in whole notes. -/
  timeSignature : α
  /-- The number of beats in a measure. -/
  beatsPerMeasure : α
  /-- The length of a measure in seconds. -/
  measureDuration : α
  /-- The seconds from the start of the track to this measure. -/
  measureStart : α
  /-- The seconds of this measure that are filled. -/
  offset : α
  /-- The voice of the notes that follow. -/
  voice : Text

/-- Why a command cannot be played. -/
inductive PlayError where
  /-- A tempo is no numeral. -/
  | invalidTempo (noun : Text)
  /-- A time signature is no fraction. -/
  | invalidTime (noun : Text)
  /-- A time signature gives measures without a length. -/
  | unusableTime (noun : Text)
  /-- No note has this name. -/
  | unknownNote (name : Text)
  /-- The length of a note is unsound. -/
  | length (e : LengthError)
  /-- Notes do not fit into measures of no length. -/
  | emptyMeasure
deriving DecidableEq, Repr

/-- The wording of a play error. -/
def PlayError.message : PlayError → String
  | invalidTempo noun => "Invalid tempo '" ++ String.ofList noun ++ "'"
  | invalidTime noun => "Invalid time signature '" ++ String.ofList noun ++ "'"
  | unusableTime noun =>
    "Time signature '" ++ String.ofList noun ++ "' cannot be used at this tempo"
  | unknownNote name => "There is no note named " ++ String.ofList name ++ "."
  | length e => e.message
  | emptyMeasure => "Notes cannot be placed in a 0/N time signature"

namespace Transport

variable {α : Type} [Scalar α]

/-- The state before the first command: a beat a second and four beats a measure. -/
def initial : Transport α where
  beatsPerSecond := Scalar.ofInt 1
  measureIndex := -1
  greatestIndex := -1
  checkpointIndex := -1
  timeSignature := Scalar.ofInt 1
  beatsPerMeasure := Scalar.ofInt 4
  measureDuration := Scalar.ofInt 4
  measureStart := Scalar.zero
  offset := Scalar.zero
  voice := Oscillator.defaultVoice

/-- The state with a new tempo, in beats a minute. -/
def setTempo (s : Transport α) (noun : Text) : Except PlayError (Transport α) :=
  match (NoteLength.quantity? noun : Option α) with
  | some bpm => .ok { s with beatsPerSecond := bpm / Scalar.ofInt 60 }
  | none => .error (.invalidTempo noun)

/-- The numbers above and below the slash of a time signature. -/
def readTime? (noun : Text) : Option (α × α) :=
  match Text.pieces '/' noun with
  | [above, below] => do
    let n ← NoteLength.quantity? above
    let d ← NoteLength.quantity? below
    return (n, d)
  | _ => none

/-- The state with a new time signature. -/
def setTime (s : Transport α) (noun : Text) : Except PlayError (Transport α) :=
  match (readTime? noun : Option (α × α)) with
  | none => .error (.invalidTime noun)
  | some (n, d) =>
    if Scalar.isZero d || Scalar.isZero s.beatsPerSecond then .error (.unusableTime noun)
    else .ok { s with
      timeSignature := n / d
      beatsPerMeasure := n
      measureDuration := n / s.beatsPerSecond }

/-- The state after a checkpoint: the next measure is the one after the furthest. -/
def startSection (s : Transport α) : Transport α :=
  { s with checkpointIndex := s.greatestIndex + 1, measureIndex := s.greatestIndex }

/-- The state at the start of the next measure. -/
def startMeasure (s : Transport α) : Transport α :=
  let index := s.measureIndex + 1
  { s with
    measureIndex := index
    measureStart := s.measureDuration * Scalar.ofInt index
    offset := Scalar.zero
    greatestIndex := max s.greatestIndex index }

/-- The state after a reset: the next measure is the one after the checkpoint. -/
def rewind (s : Transport α) : Transport α :=
  { s with measureIndex := s.checkpointIndex - 1 }

/-- The state after a command that plays no note. -/
def control (s : Transport α) (c : Command) : Except PlayError (Transport α) :=
  match c.verb with
  | .tempo => s.setTempo c.noun
  | .time => s.setTime c.noun
  | .checkpoint => .ok s.startSection
  | .voice => .ok { s with voice := c.noun }
  | .measure => .ok s.startMeasure
  | .reset => .ok s.rewind
  | .comment | .note _ => .ok s

/-- The event of a note at this place. -/
def place (s : Transport α) (name noun : Text) : Except PlayError (Event α) :=
  match Pitch.frequency? name with
  | none => .error (.unknownNote name)
  | some frequency =>
    match (NoteLength.read noun : Except LengthError (NoteLength α)) with
    | .error e => .error (.length e)
    | .ok length =>
      if Scalar.isZero s.timeSignature then .error .emptyMeasure
      else
        let fraction := length.numerator / length.denominator / s.timeSignature
        .ok {
          name := name
          frequency := frequency
          voice := s.voice
          start := s.measureStart + s.offset
          duration := s.measureDuration * fraction * NoteLength.dotFactor length.dots
          measureIndex := s.measureIndex }

/-- The state after an event at this place. -/
def pass (s : Transport α) (e : Event α) : Transport α :=
  { s with offset := s.offset + e.duration }

end Transport

end Tunescript
