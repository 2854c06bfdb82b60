import Tunescript.Number.Capacity
import Tunescript.Number.Scalar
import Tunescript.Text.Basic

/-!
# Oscillators

The periodic signals that a voice can play.  A signal gives an amplitude for a time in
seconds and a frequency in Hz.  A voice whose name is that of no oscillator plays the sine.
-/

namespace Tunescript

/-- A periodic signal. -/
inductive Oscillator where
  /-- Zero everywhere. -/
  | silence
  /-- The sine. -/
  | sine
  /-- The sign of the sine, one at its zeros. -/
  | square
  /-- A ramp from minus one to one in every period, centred on the start. -/
  | sawtooth
deriving DecidableEq, Repr

namespace Oscillator

/-- The name of an oscillator. -/
def name : Oscillator → Text
  | silence => "silence".toList
  | sine => "sine".toList
  | square => "square".toList
  | sawtooth => "sawtooth".toList

/-- The voice of a score that names none. -/
def defaultVoice : Text := sine.name

/-- The oscillator that a voice plays. -/
def ofVoice (voice : Text) : Oscillator :=
  ([silence, sine, square, sawtooth].find? fun o => o.name == voice).getD sine

/-- The circumference of the unit circle. -/
def fullTurn : Float := 2.0 * 3.141592653589793

/-- The amplitude of a signal at a time. -/
def amplitude (o : Oscillator) (frequency time : Float) : Float :=
  match o with
  | silence => 0.0
  | sine => (fullTurn * frequency * time).sin
  | square => if (fullTurn * frequency * time).sin ≥ 0.0 then 1.0 else -1.0
  | sawtooth =>
    let phase := time * frequency
    2.0 * (phase - (0.5 + phase).floor)

end Oscillator

/-- The nearest amplitude from minus one to one. -/
def clamp (x : Float) : Float :=
  if x < -1.0 then -1.0 else if 1.0 < x then 1.0 else x

/-- The number of samples in the given seconds, none of them if the seconds are negative. -/
def sampleCount [Memory] {α : Type} [Scalar α] (rate : Int) (seconds : α) :
    Except ArithmeticFault Nat := do
  let rate ← Scalar.ofBoundedInt rate
  let count ← Scalar.truncate (rate * seconds)
  Capacity.ofSound count.toNat

/-- The given number of clamped samples of a signal, `rate` of them a second. -/
def sampled (signal : Float → Float) (count : Nat) (rate : Int) : Array Float :=
  Array.ofFn fun i : Fin count => clamp (signal (Float.ofNat i / Float.ofInt rate))

end Tunescript
