import Tunescript.Performance.Run
import Tunescript.Score.Reader
import Tunescript.Sound.Wave

/-!
# Rendering scores to files

A score is rendered by reading it and playing its commands; the track is then written to a
wave file.
-/

namespace Tunescript

/-- Why a score cannot be rendered. -/
inductive RenderError where
  /-- The text is no score. -/
  | parse (e : ParseError)
  /-- A command cannot be played. -/
  | run (e : RunError)
deriving DecidableEq, Repr

/-- The performance of the score that a text holds. -/
def render [Memory] (t : Text) (rate : Int) : Except RenderError (Performance Float) := do
  let cs ← (Score.read t).mapError .parse
  (Performance.run { rate := rate } cs).mapError .run

/-- The sound of a performance at a rate. -/
def Performance.wave {α : Type} (p : Performance α) (rate : Int) : Wave :=
  Wave.ofTrack p.track.samples rate

/-- Why a score cannot be converted to a wave file. -/
inductive ConvertError where
  /-- The score cannot be rendered. -/
  | render (e : RenderError)
  /-- The file cannot be written. -/
  | write (e : Wave.WriteError)
deriving DecidableEq, Repr

/-- The files with the wave file of a score written to a path, and its performance. -/
def convert [Memory] (t : Text) (fs : Files) (path : Path) (rate : Int) :
    Except ConvertError (Performance Float × Files) := do
  let p ← (render t rate).mapError .render
  let fs ← ((p.wave rate).write fs path).mapError .write
  return (p, fs)

end Tunescript
