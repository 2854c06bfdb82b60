import Tunescript.Number.Scalar
import Tunescript.Score.Reader

/-!
# Note lengths

The noun of a note is a fraction of a whole note followed by dots.  Every dot adds half of
what the one before it added, so that `n` dots make a note `2 - 2 ^ (-n)` times as long.
Playing a note needs a sound fraction; laying it out takes its length in quarter notes and
counts an unusable fraction as no length.
-/

namespace Tunescript

/-- The length of a note as written. -/
structure NoteLength (α : Type) where
  /-- The number above the slash. -/
  numerator : α
  /-- The number below the slash. -/
  denominator : α
  /-- The number of dots. -/
  dots : Nat

/-- Why a noun is no note length. -/
inductive LengthError where
  /-- It does not have one slash. -/
  | notFraction (noun : Text)
  /-- A side of the slash is no numeral. -/
  | notNumeral (part : Text)
  /-- The number below the slash is zero. -/
  | zeroDenominator (noun : Text)
deriving DecidableEq, Repr

/-- The wording of a length error. -/
def LengthError.message : LengthError → String
  | notFraction noun => "Note length '" ++ String.ofList noun ++ "' is not a fraction."
  | notNumeral part => "could not convert string to float: " ++ Text.quoted part
  | zeroDenominator noun =>
    "Note length '" ++ String.ofList noun ++ "' has a zero denominator."

namespace NoteLength

variable {α : Type} [Scalar α]

/-- The quantity that a text writes. -/
def quantity? (t : Text) : Option α := (Numeral.read? t).bind Scalar.ofNumeral?

/-- The factor by which dots lengthen a note. -/
def dotFactor (dots : Nat) : α := Scalar.ofInt 2 - Scalar.halving dots

/-- The factor for a signed number of dots in doubles. -/
def signedDotFactor (dots : Int) : Except ArithmeticFault Float :=
  if Binary64.integerBound ≤ dots.natAbs then .error .integerTooLarge
  else if 1024 ≤ -dots then .error .powerTooLarge
  else .ok (2.0 - Binary64.powerOfTwo (-dots))

/-- The noun of a note without its dots. -/
def undotted (noun : Text) : Text := Text.erasing Score.dot noun

/-- The length that a noun writes. -/
def read (noun : Text) : Except LengthError (NoteLength α) :=
  match Text.pieces '/' (undotted noun) with
  | [above, below] =>
    match (quantity? above : Option α) with
    | none => .error (.notNumeral above)
    | some n =>
      match (quantity? below : Option α) with
      | none => .error (.notNumeral below)
      | some d =>
        if Scalar.isZero d then .error (.zeroDenominator noun)
        else .ok ⟨n, d, noun.count Score.dot⟩
  | _ => .error (.notFraction noun)

/-- The length of a noun in quarter notes, zero without a usable fraction. -/
def quarters (noun : Text) : α :=
  match Text.pieces '/' (undotted noun) with
  | [above, below] =>
    let n : α := (quantity? above).getD Scalar.zero
    let d : α := (quantity? below).getD (Scalar.ofInt 1)
    if Scalar.isZero d then Scalar.zero
    else n / d * dotFactor (noun.count Score.dot) * Scalar.ofInt 4
  | _ => Scalar.zero

end NoteLength

end Tunescript
