import Tunescript.Storage.Path
import Tunescript.Text.ShellWords

/-!
# Settings of the editor

The settings of an editing session.  The command of the preview player comes from the
environment, or else from the platform.
-/

namespace Tunescript

/-- The settings of an editing session. -/
structure Settings where
  /-- The program that plays previews, with its arguments. -/
  playerCommand : List Text
  /-- The directory of the files that previews are played from. -/
  previewDirectory : Path
  /-- The octave of new notes at first. -/
  octave : Int := 4
  /-- The length of new notes at first. -/
  duration : Text := "1/4".toList
  /-- The number of stars in a new checkpoint line. -/
  checkpointLength : Int := 71

namespace Settings

/-- The variable that names the player. -/
def playerVariable : String := "HUM_PLAYER"

/-- The player of a platform. -/
def platformPlayer (platform : String) : Text :=
  if platform = "darwin" then "afplay".toList else "aplay".toList

/-- The settings for an environment and a platform. -/
def ofEnvironment (environment : List (String × Text)) (platform : String) :
    Except Text.WordError Settings := do
  let player := Text.trim ((environment.lookup playerVariable).getD [])
  let command ←
    if player.isEmpty then pure [platformPlayer platform] else Text.shellWords player
  return { playerCommand := command, previewDirectory := Path.ofText "/tmp".toList }

end Settings

end Tunescript
