import Tunescript.CommandLine.Arguments

/-!
# Consoles

A program meets its user through a console, which tells the options among the arguments that
it was called with and shows the texts that it prints.  A console can take out of a text what
tells a terminal how to show it; a text without escape characters is shown as it is.
-/

namespace Tunescript.CommandLine

/-- The character with which the instructions for a terminal start. -/
def escapeChar : Char := '\x1b'

/-- What reads the arguments of a program and shows what it prints. -/
structure Console where
  /-- The options and positions among some arguments, nothing if they are misused.  Without
  mixing, everything from the first position on is a position. -/
  read? : (specs : List OptionSpec) → (mixing : Bool) → List Text → Option Arguments
  /-- A text as it is shown. -/
  shown : Text → Text
  /-- A text without escape characters is shown as it is. -/
  shown_of_plain : ∀ t, escapeChar ∉ t → shown t = t

end Tunescript.CommandLine
