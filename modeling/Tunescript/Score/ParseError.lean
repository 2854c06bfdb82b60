import Tunescript.Text.Quoted

/-!
# Parse errors

A text that is no score is refused at the furthest place that a command could be read to.
The error names the character found there, its line and column, and everything that could
have stood there instead.
-/

namespace Tunescript

/-- What could have stood at a place. -/
inductive Expectation where
  /-- The given characters. -/
  | literal (t : Text)
  /-- A digit of a tempo. -/
  | digit
  /-- A digit or a slash of a time signature. -/
  | timeSignature
  /-- A character of a voice's name. -/
  | voiceName
  /-- A character of a note's name. -/
  | noteName
  /-- A filler between a note's name and its length. -/
  | whitespace
  /-- A digit or a slash of a note's length. -/
  | noteLength
deriving DecidableEq, Repr

namespace Expectation

/-- The words for an expectation in a message. -/
def label : Expectation → String
  | literal t => Text.quoted t
  | digit => "digit"
  | timeSignature => "time signature"
  | voiceName => "voice name"
  | noteName => "note name"
  | whitespace => "whitespace"
  | noteLength => "note length"

/-- Puts an expectation into a list that is ordered by labels, unless it is there. -/
def insert (e : Expectation) : List Expectation → List Expectation
  | [] => [e]
  | f :: fs =>
    if e.label < f.label then e :: f :: fs
    else if e.label = f.label then f :: fs
    else f :: insert e fs

/-- The given expectations in the order of their labels, each once. -/
def inOrder (es : List Expectation) : List Expectation :=
  es.foldr insert []

end Expectation

/-- Where a command cannot be read on. -/
structure Obstacle where
  /-- The unread text at the obstacle. -/
  rest : Text
  /-- What could have stood in front of it. -/
  expected : List Expectation
deriving DecidableEq, Repr

/-- The obstacle that was reached last; of two at one place, both. -/
def Obstacle.further (a b : Obstacle) : Obstacle :=
  if a.rest.length < b.rest.length then a
  else if b.rest.length < a.rest.length then b
  else ⟨a.rest, a.expected ++ b.expected⟩

/-- Why a text is no score. -/
structure ParseError where
  /-- The character that was found, nothing at the end of the text. -/
  found : Option Char
  /-- The number of characters before the place. -/
  offset : Nat
  /-- The number of the line, from one. -/
  line : Nat
  /-- The number of the column, from one. -/
  column : Nat
  /-- What could have stood there. -/
  expected : List Expectation
deriving DecidableEq, Repr

namespace ParseError

/-- The error for an obstacle in a text. -/
def ofObstacle (t : Text) (o : Obstacle) : ParseError :=
  let offset := t.length - o.rest.length
  let before := t.take offset
  { found := o.rest.head?
    offset := offset
    line := before.count '\n' + 1
    column := (before.reverse.takeWhile (· != '\n')).length + 1
    expected := Expectation.inOrder o.expected }

/-- What was found, in words. -/
def reason (e : ParseError) : String :=
  match e.found with
  | some c => "Unexpected character " ++ Text.quoted [c]
  | none => "Unexpected end of input"

/-- A reason with its place and with what was expected there. -/
def describe (reason : String) (line column : Int) (expected : List String) : String :=
  let place := reason ++ " at line " ++ toString line ++ ", column " ++ toString column
  if expected.isEmpty then place
  else place ++ " (expected one of: " ++ ", ".intercalate expected ++ ")"

/-- The wording of an error. -/
def message (e : ParseError) : String :=
  describe e.reason e.line e.column (e.expected.map Expectation.label)

end ParseError

end Tunescript
