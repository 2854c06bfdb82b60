import Tunescript.Text.Basic

/-!
# Arguments

The arguments of a command are options and positions.  An option has long names and letters,
and some options have a value.
-/

namespace Tunescript.CommandLine

/-- An option of a command. -/
structure OptionSpec where
  /-- What it is known by after it was read. -/
  key : String
  /-- Its names after two dashes. -/
  long : List Text
  /-- Its letters. -/
  short : List Char
  /-- Whether it has a value. -/
  takesValue : Bool

/-- The options and positions among some arguments. -/
structure Arguments where
  /-- The options in order, with their values. -/
  options : List (String × Option Text) := []
  /-- The positions in order. -/
  positions : List Text := []

namespace Arguments

/-- Whether an option was given. -/
def has (a : Arguments) (key : String) : Bool := a.options.any (·.1 == key)

/-- The value that was given last for an option. -/
def value? (a : Arguments) (key : String) : Option Text :=
  (a.options.reverse.find? (·.1 == key)).bind (·.2)

end Arguments

end Tunescript.CommandLine
