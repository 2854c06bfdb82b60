import Tunescript.Number.Numeral

/-!
# Spellings of the chromatic scale

The twelve pitch classes of an octave are spelled with sharps or with flats; `n` marks a
natural.  A note is named by its pitch class and its octave, and transposing it moves it by
semitones within the spelling that its pitch class belongs to.
-/

namespace Tunescript

/-- A way of spelling the chromatic scale. -/
inductive Spelling where
  /-- The raised notes are sharps. -/
  | sharps
  /-- The raised notes are flats of the next letter. -/
  | flats
deriving DecidableEq, Repr

namespace Spelling

/-- The pitch classes from C upwards. -/
def classes : Spelling → List Text
  | sharps => ["Cn", "Cs", "Dn", "Ds", "En", "Fn", "Fs", "Gn", "Gs", "An", "As", "Bn"].map
      String.toList
  | flats => ["Cn", "Df", "Dn", "Ef", "En", "Fn", "Gf", "Gn", "Af", "An", "Bf", "Bn"].map
      String.toList

/-- The word for a spelling. -/
def word : Spelling → String
  | sharps => "sharps"
  | flats => "flats"

/-- The spelling that a word stands for, or the message that refuses the word. -/
def ofWord (w : String) : Except String Spelling :=
  match [flats, sharps].find? fun s => s.word == w with
  | some s => .ok s
  | none =>
    .error ("Unknown spelling style '" ++ w ++ "'. Use one of: "
      ++ ", ".intercalate ([flats, sharps].map word) ++ ".")

theorem length_classes (s : Spelling) :
  s.classes.length = 12
  := by
  cases s <;> rfl

/-- The spelling that a pitch class belongs to; the naturals belong to the sharps. -/
def of? (pitch : Text) : Option Spelling :=
  [sharps, flats].find? fun s => s.classes.contains pitch

end Spelling

namespace Pitch

/-- The number of semitones in an octave. -/
def semitones : Nat := 12

/-- The lowest octave of the scale. -/
def lowestOctave : Int := 0

/-- The highest octave of the scale. -/
def highestOctave : Int := 7

/-- The name of a silent note. -/
def rest : Text := "Rest".toList

/-- What stands between the pitch class and the octave of a name. -/
def separator : Char := '_'

/-- The name of a pitch class in an octave. -/
def name (pitch : Text) (octave : Int) : Text := pitch ++ separator :: Text.ofInt octave

/-- The pitch class and the octave of a name. -/
def split? (t : Text) : Option (Text × Int) :=
  match Text.pieces separator t with
  | [pitch, octave] => (Numeral.readWhole? octave).map fun n => (pitch, n)
  | _ => none

/-- Why a note cannot be transposed. -/
inductive TransposeError where
  /-- Its pitch class is in no spelling. -/
  | unknownClass (pitch : Text)
  /-- It would fall below the lowest octave. -/
  | tooLow
  /-- It would leave the octaves of the scale. -/
  | outOfRange
deriving DecidableEq, Repr

/-- The wording of a transposition error. -/
def TransposeError.message : TransposeError → String
  | unknownClass pitch => "Invalid note name '" ++ String.ofList pitch ++ "'"
  | tooLow => "Transposition too low"
  | outOfRange => "Transposition out of octave range"

/-- The pitch class and the octave that lie `delta` semitones above a note. -/
def transpose (pitch : Text) (octave delta : Int) : Except TransposeError (Text × Int) :=
  match Spelling.of? pitch with
  | none => .error (.unknownClass pitch)
  | some s =>
    let index := octave * semitones + s.classes.idxOf pitch + delta
    if index < 0 then .error .tooLow
    else if index / semitones < lowestOctave ∨ highestOctave < index / semitones then
      .error .outOfRange
    else .ok (s.classes.getD (index % semitones).toNat [], index / semitones)

end Pitch

end Tunescript
