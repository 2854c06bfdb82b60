import Tunescript.Number.Binary64
import Tunescript.Pitch.Spelling

/-!
# Frequencies

The notes of the scale are tuned in equal temperament to an A of 440 Hz: a semitone is the
twelfth root of two as a double, and a note's frequency is 440 times the double nearest to a
power of it.  A rest has an undefined frequency.
-/

namespace Tunescript.Pitch

/-- The frequency of the A above middle C, in Hz. -/
def concertPitch : Float := 440.0

/-- The numerator of the semitone over `2 ^ 52`, the double nearest to the twelfth root of
two. -/
def semitoneSignificand : Nat := 0x10f38f92d97963

/-- The double nearest to a power of the semitone. -/
def semitonePower (n : Int) : Float :=
  let m := Nat.pow semitoneSignificand n.natAbs
  let d := Nat.pow 2 (52 * n.natAbs)
  if 0 ≤ n then Binary64.ofRatio m d else Binary64.ofRatio d m

/-- The number of semitones from the lowest C up to the A of 440 Hz. -/
def anchor : Int := 4 * semitones + 9

/-- The octaves of the scale. -/
def octaves : List Int :=
  (List.range (highestOctave - lowestOctave + 1).toNat).map fun n : Nat => n + lowestOctave

/-- The names and frequencies of the notes in a spelling, with the rest. -/
def frequencies (s : Spelling) : List (Text × Float) :=
  (octaves.flatMap fun octave =>
    s.classes.zipIdx.map fun (pitch, index) =>
      (name pitch octave, concertPitch * semitonePower (octave * semitones + index - anchor)))
    ++ [(rest, 0.0 / 0.0)]

/-- The names and frequencies of the notes in either spelling, with the rest. -/
def standardFrequencies : List (Text × Float) :=
  let sharps := frequencies .sharps
  sharps ++ (frequencies .flats).filter fun entry => (sharps.lookup entry.1).isNone

/-- The frequency of a note. -/
def frequency? (t : Text) : Option Float := standardFrequencies.lookup t

/-- The number of the A of 440 Hz among the keys of an instrument. -/
def anchorKey : Float := 69.0

/-- The number of the key that is nearest to a frequency. -/
def nearestKey (frequency : Float) : Except ArithmeticFault Int := do
  let octaves ← Binary64.logarithm (frequency / concertPitch)
  Binary64.nearestInt (anchorKey + 12.0 * octaves)

end Tunescript.Pitch
