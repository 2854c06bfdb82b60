import Tunescript.Text.Basic

/-!
# Audio devices

Samples are played by handing them to the device and waiting for it to finish.  A device may
be unavailable, refuse the samples, or stop while it plays.
-/

namespace Tunescript

/-- How the audio device behaves. -/
inductive Device where
  /-- It plays everything. -/
  | ready
  /-- It refuses the samples. -/
  | refusing (reason : String)
  /-- It stops while it plays. -/
  | breaking (reason : String)
  /-- There is none. -/
  | unavailable (reason : String)
deriving DecidableEq, Repr

/-- What is asked of the device. -/
inductive DeviceCall where
  /-- To play a number of samples at a rate. -/
  | play (count : Nat) (rate : Int)
  /-- To finish. -/
  | wait
deriving DecidableEq, Repr

/-- Why samples cannot be played. -/
inductive PlaybackError where
  /-- There is no device. -/
  | unavailable (reason : String)
  /-- The device failed. -/
  | failed (reason : String)
deriving DecidableEq, Repr

/-- The wording of a playback error. -/
def PlaybackError.message : PlaybackError → String
  | unavailable reason => "Audio playback unavailable: " ++ reason
  | failed reason => "Audio playback failed: " ++ reason

/-- What is asked of a device to play some samples, and why they are not played.  Nothing is
asked for if there are no samples. -/
def Device.play (d : Device) (count : Nat) (rate : Int) : List DeviceCall × Option PlaybackError :=
  if count = 0 then ([], none)
  else match d with
    | ready => ([.play count rate, .wait], none)
    | refusing reason => ([.play count rate], some (.failed reason))
    | breaking reason => ([.play count rate, .wait], some (.failed reason))
    | unavailable reason => ([], some (.unavailable reason))

end Tunescript
