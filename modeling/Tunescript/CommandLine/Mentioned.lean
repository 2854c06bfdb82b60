import Tunescript.CommandLine.Commands

/-!
# Mentioned paths

The files that a command can read or write are named by its arguments: by a position, by the
value of an option, or by a score file with another suffix.
-/

namespace Tunescript.CommandLine

/-- The texts in an argument that can be paths: the argument, and a value that is joined to a
letter or to a long name. -/
def pathTexts (argument : Text) : List Text :=
  [argument, argument.drop 2, (argument.dropWhile (· != '=')).drop 1]

/-- The paths that a command with some arguments can touch. -/
def mentioned (arguments : List Text) : List Path :=
  let given := arguments.flatMap pathTexts
  let derived := arguments.flatMap fun file => [".wav", ".mid"].map (outputFile file none)
  ((given ++ derived).filter fun t => !t.isEmpty).map Path.ofText

end Tunescript.CommandLine
