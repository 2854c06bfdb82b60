import Tunescript.Pitch.Spelling
import Tunescript.Score.Line
import Tunescript.Sound.Oscillator
import Tunescript.Text.Alphanumeric
import Tunescript.Text.Index

/-!
# Addresses in a score

The note, the pitch, the word and the voice at a cursor are found by looking at the
characters around it.  A note runs from its `(` to the next `)` and over the dots after it;
both are looked for among a limited number of characters.  The voice at a cursor is the one
that the nearest voice line at or above the cursor names.
-/

namespace Tunescript

/-- The positions from `start` up to but not including `stop`. -/
structure Span where
  /-- The first position. -/
  start : Nat
  /-- The position after the last. -/
  stop : Nat
deriving DecidableEq, Repr

namespace Score

/-- The greatest number of characters that are looked at in one direction. -/
def scanLimit : Nat := 100

/-- The character that opens a note. -/
def noteOpening : Char := '('

/-- The character that closes a note. -/
def noteClosing : Char := ')'

/-- The character that starts a measure. -/
def measureMark : Char := '|'

/-- The character of a reset. -/
def resetMark : Char := ';'

/-- How far the opening of a note lies behind the first of the given characters, which run
backwards.  Another note's closing ends the search, except as the first character. -/
def openingDistance? : (limit : Nat) → (first : Bool) → Text → Option Nat
  | 0, _, _ => none
  | _, _, [] => none
  | limit + 1, first, c :: t =>
    if c = noteOpening then some 0
    else if c = noteClosing ∧ ¬first then none
    else (openingDistance? limit false t).map (· + 1)

/-- The note that opens at a position. -/
def noteFrom? (t : Text) (start : Nat) : Option Span :=
  match Text.indexOf? noteClosing ((t.drop start).take scanLimit) with
  | none => none
  | some k =>
    let stop := start + k + 1
    some ⟨start, stop + ((t.drop stop).takeWhile (· == '+')).length⟩

/-- The note at a cursor, with its dots. -/
def noteAt? (t : Text) (cursor : Int) : Option Span :=
  if 0 ≤ cursor ∧ cursor < t.length then
    let c := cursor.toNat
    match openingDistance? scanLimit true (t.take (c + 1)).reverse with
    | none => none
    | some d => (noteFrom? t (c - d)).filter fun span => c < span.stop
  else none

/-- Whether a character may stand in a word. -/
def isWordChar (c : Char) : Bool := Text.isAlphanumeric c || c == '_'

/-- The word at a cursor: the longest run of letters, digits and underscores around it. -/
def wordAt? (t : Text) (cursor : Int) : Option Span :=
  if 0 ≤ cursor ∧ cursor < t.length then
    let c := cursor.toNat
    let before := ((t.take c).reverse.takeWhile isWordChar).length
    let after := ((t.drop c).takeWhile isWordChar).length
    if after = 0 then none else some ⟨c - before, c + after⟩
  else none

/-- The pitch in the note at a cursor: what stands between its opening and the first space. -/
def pitchAt? (t : Text) (cursor : Int) : Option Span :=
  match noteAt? t cursor with
  | none => none
  | some note =>
    let start := note.start + 1
    (Text.indexOf? ' ' ((t.take note.stop).drop start)).map fun k => ⟨start, start + k⟩

/-- The voice that a line names, if it is a voice line with a name. -/
def voiceOfLine? (line : Text) : Option Text :=
  if isVoiceLine line then (Text.words line)[1]? else none

/-- The voice at a cursor. -/
def voiceAt (t : Text) (cursor : Int) : Text :=
  let above := (Text.pieces '\n' t).take (Text.lineEndsBefore t cursor + 1)
  (above.reverse.findSome? voiceOfLine?).getD Oscillator.defaultVoice

/-- The text of a note with a pitch, a length and dots. -/
def noteText (name length dots : Text) : Text :=
  noteOpening :: name ++ ' ' :: length ++ noteClosing :: dots

end Score

end Tunescript
