import Tunescript.CommandLine.Conventional
import Tunescript.CommandLine.Mentioned

/-!
# The program

The program reads the files that its arguments mention, runs the command on them, writes the
files that the command changed, and prints what the command printed.
-/

namespace Tunescript

/-- The text of the place of a node on the disk. -/
def placeOf (names : List Text) : String := String.ofList (Path.ofWay names).text

/-- The files with what is found at some names on the disk. -/
def loadNode (fs : Files) (names : List Text) : IO Files := do
  let place := placeOf names
  match ← (IO.FS.readBinFile place).toBaseIO with
  | .ok content => return fs.put names (.file content.toList)
  | .error _ =>
    match ← (IO.FS.realPath place).toBaseIO with
    | .ok path => return if ← path.isDir then fs.put names .directory else fs
    | .error _ => return fs

/-- Writes the files that changed to the disk. -/
def saveNodes (old new : Files) : IO Unit :=
  new.nodes.forM fun (names, node) =>
    match node with
    | .directory => pure ()
    | .file content =>
      if old.node? names = some node then pure ()
      else IO.FS.writeBinFile (placeOf names) ⟨content.toArray⟩

/-- Runs a command on the disk and gives the status it ended with. -/
def runOnDisk [Memory] (arguments : List Text) : IO Nat := do
  let places := (CommandLine.mentioned arguments).flatMap Path.stations
  let files ← places.eraseDups.foldlM loadNode Files.empty
  let device := Device.unavailable "there is no sound library"
  let outcome := (CommandLine.run arguments).outcome
    { files := files, device := device, console := .conventional }
  saveNodes files outcome.terminal.files
  IO.print outcome.terminal.output
  IO.eprint outcome.terminal.errors
  if outcome.status = 2 then IO.eprintln CommandLine.usage
  match outcome.crash with
  | some crash => IO.eprintln crash.message
  | none => pure ()
  return outcome.status

end Tunescript

/-- Runs the program on its arguments. -/
def main (arguments : List String) : IO UInt32 := do
  let _ := Tunescript.Memory.sixteenGigabytes
  return UInt32.ofNat (← Tunescript.runOnDisk (arguments.map String.toList))
