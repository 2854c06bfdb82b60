import Tunescript.CommandLine.Console
import Tunescript.Midi.Sequence
import Tunescript.Sound.Device
import Tunescript.Sound.Render

/-!
# The terminal

A command runs at a terminal: it prints to its output and to its error output, reads and
writes files and plays to the audio device.  What it prints is shown by the console.  It ends
with a status, or it is broken off by a failure that it does not handle.
-/

namespace Tunescript.CommandLine

/-- A failure that breaks a command off. -/
inductive Crash where
  /-- A number lies beyond all numbers. -/
  | arithmetic (f : ArithmeticFault)
  /-- A sound cannot be written. -/
  | wave (e : Wave.WriteError)
  /-- A path can be that of no file. -/
  | file (e : FileError)
  /-- Notes cannot be exported. -/
  | exporting (e : Midi.ExportError)

/-- The wording of a crash. -/
def Crash.message : Crash → String
  | arithmetic f => f.message
  | wave e => e.message
  | file e => e.message
  | exporting e => e.message

/-- How a command ends early. -/
inductive Ending where
  /-- With a status. -/
  | status (code : Nat)
  /-- Broken off. -/
  | crash (c : Crash)

/-- The state of the terminal. -/
structure Terminal where
  /-- The files. -/
  files : Files
  /-- The audio device. -/
  device : Device
  /-- What reads the arguments and shows what is printed. -/
  console : Console
  /-- Whether details are reported. -/
  verbose : Bool := false
  /-- What was printed. -/
  output : String := ""
  /-- What was printed to the error output. -/
  errors : String := ""
  /-- What was asked of the device. -/
  calls : List DeviceCall := []

/-- A text as it is printed at a terminal. -/
def Terminal.printed (t : Terminal) (s : String) : String :=
  String.ofList (t.console.shown s.toList)

/-- A command at a terminal. -/
abbrev Job := EStateM Ending Terminal

namespace Job

/-- Prints a text. -/
def print (s : String) : Job Unit :=
  modify fun t => { t with output := t.output ++ t.printed s }

/-- Prints a line. -/
def printLine (s : String) : Job Unit := print (s ++ "\n")

/-- Adds a line to the error output. -/
def errorLine (s : String) : Job Unit := modify fun t => { t with errors := t.errors ++ s ++ "\n" }

/-- Prints a line to the error output. -/
def printError (s : String) : Job Unit := do errorLine ((← get).printed s)

/-- Reports a detail as it is if details are reported. -/
def report (source message : String) : Job Unit := do
  if (← get).verbose then errorLine ("INFO " ++ source ++ ": " ++ message)

/-- Ends with a status. -/
def exit {α : Type} (code : Nat) : Job α := throw (.status code)

/-- Ends with an error message. -/
def fail {α : Type} (message : String) : Job α := do
  printError ("  ERROR: " ++ message)
  exit 1

/-- Is broken off. -/
def crash {α : Type} (c : Crash) : Job α := throw (.crash c)

/-- Ends for an error with a file: with a message, if the system reports the error. -/
def failFile {α : Type} (told : String) (e : FileError) : Job α :=
  if e.isSystem then fail (told ++ e.message) else crash (.file e)

end Job

/-- What came of a command. -/
structure Outcome where
  /-- The status it ended with. -/
  status : Nat
  /-- The failure that broke it off. -/
  crash : Option Crash
  /-- The terminal afterwards. -/
  terminal : Terminal

/-- The outcome of a command at a terminal. -/
def Job.outcome (j : Job Unit) (t : Terminal) : Outcome :=
  match j.run t with
  | .ok _ t => ⟨0, none, t⟩
  | .error (.status code) t => ⟨code, none, t⟩
  | .error (.crash c) t => ⟨1, some c, t⟩

end Tunescript.CommandLine
