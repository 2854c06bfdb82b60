import Tunescript.Number.Shortest
import Tunescript.Performance.Transport
import Tunescript.Storage.Files

/-!
# Exporting notes

The events of a performance become the calls that build a sequence: a first track with the
tempo only, then a track for every voice in the order in which the voices first appear, each
with a name, a channel and a program.  Every sounding event of positive length becomes one
note on the track of its voice; rests leave a gap.  Times are counted in beats of the tempo.
-/

namespace Tunescript.Midi

/-- A call that builds a sequence. -/
inductive Call where
  /-- The number of tracks. -/
  | tracks (count : Nat)
  /-- The tempo of a track in beats a minute. -/
  | tempo (track : Nat) (value : Float)
  /-- The name of a track. -/
  | name (track : Nat) (text : Text)
  /-- The program of a channel. -/
  | program (track channel program : Nat)
  /-- A note. -/
  | note (track channel : Nat) (pitch : Int) (start duration : Float) (velocity : Int)

/-- Why events cannot be exported. -/
inductive ExportError where
  /-- The tempo is not positive. -/
  | tempo (value : Float)
  /-- A note lies beyond all numbers. -/
  | arithmetic (f : ArithmeticFault)
  /-- The name of a voice cannot be written. -/
  | voice (e : Text.Latin1Error)
  /-- A beat is too long to be written. -/
  | beatTooLong
  /-- A velocity is no byte. -/
  | velocity
  /-- The file cannot be written. -/
  | file (e : FileError)

/-- The wording of an export error. -/
def ExportError.message : ExportError → String
  | tempo value =>
    "MIDI tempo must be positive, got " ++ String.ofList (Decimal.ofFloat value) ++ "."
  | arithmetic f => f.message
  | voice e => e.message
  | beatTooLong => "'L' format requires 0 <= number <= 4294967295"
  | velocity => "ubyte format requires 0 <= number <= 255"
  | file e => e.message

/-- How events are exported. -/
structure Exporter where
  /-- The tempo in beats a minute. -/
  tempo : Float
  /-- The velocity of every note. -/
  velocity : Int

/-- The tempo of a score that sets none. -/
def defaultTempo : Float := 60.0

/-- The velocity of the notes. -/
def defaultVelocity : Int := 80

/-- An exporter with a positive tempo. -/
def Exporter.make (tempo : Float) (velocity : Int) : Except ExportError Exporter :=
  if tempo ≤ 0.0 then .error (.tempo tempo) else .ok ⟨tempo, velocity⟩

/-- A time in beats. -/
def Exporter.beats (x : Exporter) (seconds : Float) : Float := seconds * (x.tempo / 60.0)

/-- The voices of some events in the order in which they first appear. -/
def voices (events : List (Event Float)) : List Text :=
  events.foldl (fun vs e => if vs.contains e.voice then vs else vs ++ [e.voice]) []

/-- The channel that is kept for percussion. -/
def percussionChannel : Nat := 9

/-- The channels for voices. -/
def melodicChannels : List Nat := (List.range 16).filter (· != percussionChannel)

/-- The channel of the numbered voice; the channels are used again and again, backwards too. -/
def channel (i : Int) : Nat :=
  melodicChannels.getD (i % (melodicChannels.length : Int)).toNat 0

/-- The program that sounds most like a voice. -/
def program (voice : Text) : Nat :=
  match Oscillator.ofVoice voice with
  | .square => 80
  | .sawtooth => 81
  | .sine | .silence => 79

/-- The track of the numbered voice. -/
def track (i : Nat) : Nat := i + 1

/-- The pitch of a frequency, at one end of the keyboard if it lies beyond. -/
def pitch (frequency : Float) : Except ArithmeticFault Int :=
  (Pitch.nearestKey frequency).map fun n => min (max n 0) 127

/-- Whether an event is written. -/
def isWritten (e : Event Float) : Bool := !e.isRest && !(e.duration ≤ 0.0)

/-- The calls for the track of the numbered voice. -/
def voiceCalls (voice : Text) (i : Nat) : List Call :=
  [.name (track i) voice, .program (track i) (channel i) (program voice)]

/-- The call for a note among the given voices. -/
def noteCall (x : Exporter) (voices : List Text) (e : Event Float) :
    Except ArithmeticFault Call := do
  let pitch ← pitch e.frequency
  let i := voices.idxOf e.voice
  return .note (track i) (channel i) pitch (x.beats e.start) (x.beats e.duration) x.velocity

/-- The calls for some events, up to the first that has no pitch. -/
def plan (x : Exporter) (events : List (Event Float)) : List (Except ArithmeticFault Call) :=
  let vs := voices events
  [.ok (.tracks (vs.length + 1)), .ok (.tempo 0 x.tempo)]
    ++ (vs.zipIdx.flatMap fun (v, i) => voiceCalls v i).map .ok
    ++ (events.filter isWritten).map (noteCall x vs)

end Tunescript.Midi
