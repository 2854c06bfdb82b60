import Tunescript.Score.Command
import Tunescript.Score.ParseError

/-!
# Reading scores

A command is recognised by its first character after the filler: `~` opens a comment, `[` a
tempo or a time signature, `*` a checkpoint, `%` a voice, `|` a measure, `;` a reset and `(`
a note.  Blanks and dashes are filler and may stand around every part of a command, but not
inside a name or a number.  `Score.read` reads commands until the text is used up; where no
command can be read, the obstacle that was reached last becomes the error.
-/

namespace Tunescript.Score

open Text (trim)

/-- Whether a character only fills space within a line. -/
def isInlineFiller (c : Char) : Bool := c == ' ' || c == '-' || c == '\t' || c == '\r'

/-- Whether a character only fills space. -/
def isFiller (c : Char) : Bool := isInlineFiller c || c == '\n'

/-- Whether a character may stand in the name of a voice or a note. -/
def isNameChar (c : Char) : Bool := c.isAlphanum || c == '_'

/-- Whether a character may stand in a fraction. -/
def isFractionChar (c : Char) : Bool := c.isDigit || c == '/'

/-- The mark of a dotted note. -/
def dot : Char := '+'

/-- What stands after the number of a tempo. -/
def tempoSuffix : Text := "_bpm".toList

/-- The text after the filler at its start. -/
def skip (t : Text) : Text := t.dropWhile isFiller

/-- The text after the given characters. -/
def literal (l t : Text) : Except Obstacle Text :=
  if l.isPrefixOf t then .ok (t.drop l.length) else .error ⟨t, [.literal l]⟩

/-- The characters of a class in front of a text, at least one, and the text after them. -/
def some1 (p : Char → Bool) (e : Expectation) (t : Text) : Except Obstacle (Text × Text) :=
  if (t.takeWhile p).isEmpty then .error ⟨t, [e]⟩ else .ok (t.takeWhile p, t.dropWhile p)

/-- The rest of the line in front of a text, and the text after its line end. -/
def restOfLine (t : Text) : Text × Text :=
  (t.takeWhile (· != '\n'), (t.dropWhile (· != '\n')).drop 1)

/-- A comment after its `~`. -/
def comment (t : Text) : Command × Text :=
  (⟨.comment, trim (restOfLine t).1⟩, (restOfLine t).2)

/-- A reset after its `;`. -/
def reset (t : Text) : Command × Text :=
  let line := restOfLine (t.dropWhile isInlineFiller)
  (⟨.reset, trim line.1⟩, line.2)

/-- A tempo after its `[`. -/
def tempo (t : Text) : Except Obstacle (Command × Text) := do
  let (number, t) ← some1 Char.isDigit .digit (skip t)
  let t ← literal tempoSuffix t
  let t ← literal [']'] (skip t)
  return (⟨.tempo, number⟩, skip t)

/-- A time signature after its `[`. -/
def time (t : Text) : Except Obstacle (Command × Text) := do
  let (fraction, t) ← some1 isFractionChar .timeSignature (skip t)
  let t ← literal [']'] (skip t)
  return (⟨.time, fraction⟩, skip t)

/-- A tempo, or else a time signature, after its `[`. -/
def bracket (t : Text) : Except Obstacle (Command × Text) :=
  match tempo t with
  | .ok r => .ok r
  | .error a =>
    match time t with
    | .ok r => .ok r
    | .error b => .error (a.further b)

/-- A checkpoint after its first `*`. -/
def checkpoint (t : Text) : Command × Text :=
  (⟨.checkpoint, '*' :: t.takeWhile (· == '*')⟩, skip (t.dropWhile (· == '*')))

/-- A voice after its `%`. -/
def voice (t : Text) : Except Obstacle (Command × Text) := do
  let (name, t) ← some1 isNameChar .voiceName (skip t)
  return (⟨.voice, name⟩, skip t)

/-- A note after its `(`.  Its noun is its length followed by all of its dots. -/
def note (t : Text) : Except Obstacle (Command × Text) := do
  let (name, t) ← some1 isNameChar .noteName (skip t)
  let (_, t) ← some1 isFiller .whitespace t
  let (length, t) ← some1 isFractionChar .noteLength t
  let inner := t.takeWhile (· == dot)
  let t ← literal [')'] (skip (t.dropWhile (· == dot)))
  let outer := t.takeWhile (· == dot)
  return (⟨Verb.ofWord name, length ++ inner ++ outer⟩, skip (t.dropWhile (· == dot)))

/-- What can stand in front of a command. -/
def openings : List Expectation :=
  [['~'], ['['], ['*'], ['%'], ['|'], [';'], ['(']].map .literal

/-- The command in front of a text, and the text after it. -/
def command (t : Text) : Except Obstacle (Command × Text) :=
  match skip t with
  | '~' :: r => .ok (comment r)
  | '[' :: r => bracket r
  | '*' :: r => .ok (checkpoint r)
  | '%' :: r => voice r
  | '|' :: r => .ok (⟨.measure, ['|']⟩, skip r)
  | ';' :: r => .ok (reset r)
  | '(' :: r => note r
  | r => .error ⟨r, openings⟩

theorem length_dropWhile_le (p : Char → Bool) (t : Text) :
  (t.dropWhile p).length ≤ t.length
  := (List.dropWhile_suffix p).length_le

theorem length_skip_le (t : Text) :
  (skip t).length ≤ t.length
  := length_dropWhile_le isFiller t

theorem length_le_of_literal {l t r : Text} (h : literal l t = .ok r) :
  r.length ≤ t.length
  := by
  unfold literal at h
  split at h <;> cases h
  simp

theorem length_le_of_some1 {p : Char → Bool} {e : Expectation} {t xs r : Text}
    (h : some1 p e t = .ok (xs, r)) :
  r.length ≤ t.length
  := by
  unfold some1 at h
  split at h <;> cases h
  exact length_dropWhile_le p t

theorem length_restOfLine_le (t : Text) :
  (restOfLine t).2.length ≤ t.length
  := by
  have := length_dropWhile_le (· != '\n') t
  simp only [restOfLine, List.length_drop]
  omega

theorem length_le_of_tempo {t : Text} {c : Command} {r : Text} (h : tempo t = .ok (c, r)) :
  r.length ≤ t.length
  := by
  simp only [tempo, bind, Except.bind, pure, Except.pure] at h
  split at h
  · cases h
  · rename_i _ x hx
    split at h
    · cases h
    · rename_i _ y hy
      split at h
      · cases h
      · rename_i _ z hz
        cases h
        have h₁ := length_le_of_some1 hx
        have h₂ := length_le_of_literal hy
        have h₃ := length_le_of_literal hz
        have := length_skip_le t
        have := length_skip_le y
        have := length_skip_le z
        omega

theorem length_le_of_time {t : Text} {c : Command} {r : Text} (h : time t = .ok (c, r)) :
  r.length ≤ t.length
  := by
  simp only [time, bind, Except.bind, pure, Except.pure] at h
  split at h
  · cases h
  · rename_i _ x hx
    split at h
    · cases h
    · rename_i _ z hz
      cases h
      have h₁ := length_le_of_some1 hx
      have h₃ := length_le_of_literal hz
      have := length_skip_le t
      have := length_skip_le x.2
      have := length_skip_le z
      omega

theorem length_le_of_bracket {t : Text} {c : Command} {r : Text} (h : bracket t = .ok (c, r)) :
  r.length ≤ t.length
  := by
  unfold bracket at h
  split at h
  · rename_i h'
    cases h
    exact length_le_of_tempo h'
  · split at h
    · rename_i h'
      cases h
      exact length_le_of_time h'
    · cases h

theorem length_le_of_voice {t : Text} {c : Command} {r : Text} (h : voice t = .ok (c, r)) :
  r.length ≤ t.length
  := by
  simp only [voice, bind, Except.bind, pure, Except.pure] at h
  split at h
  · cases h
  · rename_i _ x hx
    cases h
    have h₁ := length_le_of_some1 hx
    have := length_skip_le t
    have := length_skip_le x.2
    omega

theorem length_le_of_note {t : Text} {c : Command} {r : Text} (h : note t = .ok (c, r)) :
  r.length ≤ t.length
  := by
  simp only [note, bind, Except.bind, pure, Except.pure] at h
  split at h
  · cases h
  · rename_i _ x hx
    split at h
    · cases h
    · rename_i _ y hy
      split at h
      · cases h
      · rename_i _ z hz
        split at h
        · cases h
        · rename_i _ w hw
          cases h
          have h₁ := length_le_of_some1 hx
          have h₂ := length_le_of_some1 hy
          have h₃ := length_le_of_some1 hz
          have h₄ := length_le_of_literal hw
          have := length_skip_le t
          have := length_skip_le (z.2.dropWhile (· == dot))
          have := length_dropWhile_le (· == dot) z.2
          have := length_skip_le (w.dropWhile (· == dot))
          have := length_dropWhile_le (· == dot) w
          omega

/-- A command uses up at least one character. -/
theorem length_lt_of_command {t : Text} {c : Command} {r : Text} (h : command t = .ok (c, r)) :
  r.length < t.length
  := by
  have hskip := length_skip_le t
  unfold command at h
  split at h
  · rename_i u hu
    have := length_restOfLine_le u
    cases h
    simp only [hu, List.length_cons] at hskip
    omega
  · rename_i u hu
    have := length_le_of_bracket h
    simp only [hu, List.length_cons] at hskip
    omega
  · rename_i u hu
    have := length_dropWhile_le (· == '*') u
    have := length_skip_le (u.dropWhile (· == '*'))
    cases h
    simp only [hu, List.length_cons] at hskip
    omega
  · rename_i u hu
    have := length_le_of_voice h
    simp only [hu, List.length_cons] at hskip
    omega
  · rename_i u hu
    have := length_skip_le u
    cases h
    simp only [hu, List.length_cons] at hskip
    omega
  · rename_i u hu
    have := length_dropWhile_le isInlineFiller u
    have := length_restOfLine_le (u.dropWhile isInlineFiller)
    cases h
    simp only [hu, List.length_cons] at hskip
    omega
  · rename_i u hu
    have := length_le_of_note h
    simp only [hu, List.length_cons] at hskip
    omega
  · cases h

/-- The commands of a text, or the obstacle at which they end too early. -/
def commands (t : Text) : Except Obstacle (List Command) :=
  match _h : command t with
  | .ok (c, r) =>
    match commands r with
    | .ok cs => .ok (c :: cs)
    | .error o => .error o
  | .error o => if (skip t).isEmpty then .ok [] else .error o
termination_by t.length
decreasing_by exact length_lt_of_command _h

/-- The commands of a text. -/
def read (t : Text) : Except ParseError (List Command) :=
  match commands t with
  | .ok cs => .ok cs
  | .error o => .error (.ofObstacle t o)

/-- Why a text is not a line of a score. -/
inductive LineError where
  /-- It has a line end before its end. -/
  | severalLines
  /-- It is no score. -/
  | parse (e : ParseError)
deriving DecidableEq, Repr

/-- The wording of a line error. -/
def LineError.message : LineError → String
  | .severalLines => "parse_line() expects a single line of text."
  | .parse e => e.message

/-- The commands of a single line, which may end with its line end. -/
def readLine (t : Text) : Except LineError (List Command) :=
  if t.dropLast.contains '\n' then .error .severalLines
  else match read t with
    | .ok cs => .ok cs
    | .error e => .error (.parse e)

end Tunescript.Score
