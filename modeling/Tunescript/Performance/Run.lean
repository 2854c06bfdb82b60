import Tunescript.Performance.Transport
import Tunescript.Sound.Track

/-!
# Playing scores

A score is played command by command.  A note becomes an event at the place of the
transport; its samples are taken from the oscillator of its voice, scaled by the volume and
mixed into the track at its start, or at the start of the track if it lies before that.  The
first command that cannot be played ends the playing without a result.
-/

namespace Tunescript

/-- How a score is played. -/
structure Playback where
  /-- The number of samples a second. -/
  rate : Int := 44100
  /-- The factor by which every note is scaled. -/
  volume : Float := 0.05

/-- Why a score cannot be played. -/
inductive RunError where
  /-- A command makes no sense. -/
  | play (e : PlayError)
  /-- A note lies beyond all numbers or beyond memory. -/
  | arithmetic (f : ArithmeticFault)
deriving DecidableEq, Repr

/-- The wording of a run error. -/
def RunError.message : RunError → String
  | play e => e.message
  | arithmetic f => f.message

/-- What has been played so far. -/
structure Performance (α : Type) where
  /-- The place in time. -/
  transport : Transport α
  /-- The sound. -/
  track : Track Float
  /-- The notes and rests in the order in which they were placed. -/
  events : List (Event α)

namespace Event

variable {α : Type} [Scalar α]

/-- The sample at which an event starts, none of them before the track. -/
def firstSample (e : Event α) (rate : Int) : Except ArithmeticFault Nat := do
  let rate ← Scalar.ofBoundedInt rate
  let first ← Scalar.truncate (e.start * rate)
  return first.toNat

/-- The oscillator that plays an event. -/
def oscillator (e : Event α) : Oscillator :=
  if e.isRest then .silence else .ofVoice e.voice

/-- The samples of an event as they are mixed in. -/
def samples (e : Event α) (playback : Playback) (count : Nat) : Array Float :=
  (sampled (e.oscillator.amplitude e.frequency) count playback.rate).map (· * playback.volume)

end Event

namespace Performance

variable [Memory] {α : Type} [Scalar α]

/-- Nothing has been played. -/
def initial : Performance α := ⟨Transport.initial, Track.empty, []⟩

/-- The performance with an event added to it. -/
def add (p : Performance α) (playback : Playback) (e : Event α) :
    Except ArithmeticFault (Performance α) := do
  let count ← sampleCount playback.rate e.duration
  let start ← e.firstSample playback.rate
  let _ ← Capacity.ofTrack (start + count)
  return {
    transport := p.transport.pass e
    track := p.track.mix start (e.samples playback count)
    events := p.events ++ [e] }

/-- The performance after one more command. -/
def step (playback : Playback) (p : Performance α) (c : Command) :
    Except RunError (Performance α) :=
  match c.verb with
  | .note name =>
    match p.transport.place name c.noun with
    | .error e => .error (.play e)
    | .ok event => (p.add playback event).mapError .arithmetic
  | _ =>
    match p.transport.control c with
    | .error e => .error (.play e)
    | .ok transport => .ok { p with transport := transport }

/-- The performance of a list of commands. -/
def run (playback : Playback) (cs : List Command) : Except RunError (Performance α) :=
  cs.foldlM (step playback) initial

/-- The number of notes that sound. -/
def soundingCount (p : Performance α) : Nat := p.events.countP fun e => !e.isRest

/-- The length of the sound in seconds. -/
def seconds (p : Performance α) (rate : Int) : Except ArithmeticFault Float :=
  if rate = 0 then .error .zeroDivisor
  else .ok (Binary64.ofQuotient p.track.length rate)

end Performance

end Tunescript
