import Tunescript.Text.Basic

/-!
# Words of a command line

A command line is split into words at spaces, tabs and line ends.  Text between single
quotes stands for itself; between double quotes a backslash escapes a double quote and a
backslash; elsewhere it escapes any character.  Quotes make a word even if it is empty.
-/

namespace Tunescript.Text

/-- Why a command line cannot be split. -/
inductive WordError where
  /-- A quotation is not closed. -/
  | openQuotation
  /-- A backslash ends the command line. -/
  | openEscape
deriving DecidableEq, Repr

/-- The wording of a word error. -/
def WordError.message : WordError → String
  | openQuotation => "No closing quotation"
  | openEscape => "No escaped character"

/-- What the splitting is in the middle of, with the current word. -/
inductive WordState where
  /-- Between two words. -/
  | between
  /-- In a word. -/
  | word (w : Text)
  /-- In single quotes. -/
  | single (w : Text)
  /-- In double quotes. -/
  | double (w : Text)
  /-- After a backslash in a word. -/
  | escape (w : Text)
  /-- After a backslash in double quotes. -/
  | doubleEscape (w : Text)

/-- Whether a character separates words. -/
def separatesWords (c : Char) : Bool := c == ' ' || c == '\t' || c == '\r' || c == '\n'

/-- The state after a character within or before a word. -/
def WordState.enter (w : Text) (c : Char) : WordState :=
  if c = '\\' then .escape w
  else if c = '\'' then .single w
  else if c = '"' then .double w
  else .word (w ++ [c])

/-- The words of the rest of a command line. -/
def shellWordsFrom : WordState → Text → Except WordError (List Text)
  | .between, [] => .ok []
  | .word w, [] => .ok [w]
  | .single _, [] | .double _, [] => .error .openQuotation
  | .escape _, [] | .doubleEscape _, [] => .error .openEscape
  | .between, c :: t =>
    if separatesWords c then shellWordsFrom .between t else shellWordsFrom (.enter [] c) t
  | .word w, c :: t =>
    if separatesWords c then (shellWordsFrom .between t).map (w :: ·)
    else shellWordsFrom (.enter w c) t
  | .single w, c :: t =>
    if c = '\'' then shellWordsFrom (.word w) t else shellWordsFrom (.single (w ++ [c])) t
  | .double w, c :: t =>
    if c = '"' then shellWordsFrom (.word w) t
    else if c = '\\' then shellWordsFrom (.doubleEscape w) t
    else shellWordsFrom (.double (w ++ [c])) t
  | .escape w, c :: t => shellWordsFrom (.word (w ++ [c])) t
  | .doubleEscape w, c :: t =>
    if c = '"' ∨ c = '\\' then shellWordsFrom (.double (w ++ [c])) t
    else shellWordsFrom (.double (w ++ ['\\', c])) t

/-- The words of a command line. -/
def shellWords (t : Text) : Except WordError (List Text) := shellWordsFrom .between t

end Tunescript.Text
