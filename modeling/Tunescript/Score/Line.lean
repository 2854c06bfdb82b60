import Tunescript.Text.Lines

/-!
# Kinds of lines

A line of a score is recognised by its first character or by the marks that occur in it,
without reading its commands.
-/

namespace Tunescript.Score

/-- The character that opens a comment. -/
def commentMark : Char := '~'

/-- The character of a checkpoint. -/
def checkpointMark : Char := '*'

/-- The character that opens a voice. -/
def voiceMark : Char := '%'

/-- Whether the first character of a line after its blanks is the given one. -/
def opensWith (mark : Char) (line : Text) : Bool :=
  (Text.trimStart line).head? == some mark

/-- Whether a line is a comment. -/
def isCommentLine (line : Text) : Bool := opensWith commentMark line

/-- Whether a line is a checkpoint. -/
def isCheckpointLine (line : Text) : Bool := opensWith checkpointMark line

/-- Whether a line sets a voice. -/
def isVoiceLine (line : Text) : Bool := opensWith voiceMark line

/-- Whether a line sets a tempo. -/
def isTempoLine (line : Text) : Bool := Text.occursIn "_bpm".toList line

/-- Whether a line sets a time signature. -/
def isTimeLine (line : Text) : Bool :=
  line.contains '[' && line.contains '/' && line.contains ']'

end Tunescript.Score
