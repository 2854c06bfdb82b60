import Tunescript.CommandLine.Terminal
import Tunescript.Layout.Document

/-!
# Commands

The command line of the program: playing a score, rendering it to a wave file, formatting it
and exporting it to a file of notes.  Misused arguments end a command with the status 2,
every other error with the status 1 and a message.
-/

namespace Tunescript.CommandLine

open Job

/-- The number of samples a second of rendered scores. -/
def renderRate : Int := 44100

/-- The name and version of the program. -/
def versionLine : String := "hum, version 0.6.0"

/-- How the program is used. -/
def usage : String :=
  "Usage: hum [--verbose] play|render|format|midi SCORE_FILE [OPTIONS]"

/-- The text of a score file. -/
def readScore (file : Text) : Job Text := do
  match (← get).files.readText (Path.ofText file) with
  | .ok t => return t
  | .error (.file e) => failFile "Could not read score file: " e
  | .error (.encoding e) => fail ("Could not read score file: " ++ e.message)

variable [Memory]

/-- The performance of a score file. -/
def renderFile (file : Text) : Job (Performance Float) := do
  let t ← readScore file
  match render t renderRate with
  | .ok p => return p
  | .error (.parse e) => fail ("Error parsing grammar: " ++ e.message)
  | .error (.run (.play e)) => fail ("Could not render score: " ++ e.message)
  | .error (.run (.arithmetic f)) => crash (.arithmetic f)

/-- The length of a performance with two places. -/
def secondsText (p : Performance Float) : String :=
  String.ofList (Decimal.fixed 2 (Binary64.ofQuotient p.track.length renderRate))

/-- The number of notes of a performance and its length. -/
def summary (p : Performance Float) : String :=
  toString p.soundingCount ++ " note(s), " ++ secondsText p ++ " s"

/-- The first positive tempo among some commands; the search ends at one that is no numeral. -/
def firstTempo : List Command → Float
  | [] => Midi.defaultTempo
  | ⟨.tempo, noun⟩ :: cs =>
    match (NoteLength.quantity? noun : Option Float) with
    | none => Midi.defaultTempo
    | some bpm => if 0.0 < bpm then bpm else firstTempo cs
  | _ :: cs => firstTempo cs

/-- The tempo at which a score opens. -/
def openingTempo (t : Text) : Except ParseError Float := (Score.read t).map firstTempo

/-- The file that a command writes: the given one, or the score file with another suffix. -/
def outputFile (file : Text) (given : Option Text) (suffix : String) : Text :=
  given.getD ((Path.ofText file).withSuffix suffix.toList).text

/-- Plays a score. -/
def play (file : Text) : Job Unit := do
  let p ← renderFile file
  printLine ("Playing '" ++ String.ofList file ++ "' (" ++ summary p ++ ")...")
  if p.track.length = 0 then report "hum.audio_io" "Nothing to play"
  let (calls, failure) := (← get).device.play p.track.length renderRate
  modify fun t => { t with calls := t.calls ++ calls }
  match failure with
  | none => pure ()
  | some e => fail e.message

/-- Tells that a file was written. -/
def tellWritten (output : Text) (p : Performance Float) : Job Unit :=
  printLine ("Done!  Wrote '" ++ String.ofList output ++ "' (" ++ summary p ++ ").")

/-- Renders a score to a wave file. -/
def renderTo (file : Text) (given : Option Text) : Job Unit := do
  let output := outputFile file given ".wav"
  printLine "Transcribing score..."
  let p ← renderFile file
  let path := Path.ofText output
  match (p.wave renderRate).write (← get).files path with
  | .error (.notOpened shown cause) => fail (Wave.WriteError.notOpened shown cause).message
  | .error e => crash (.wave e)
  | .ok files =>
    modify fun t => { t with files := files }
    report "hum.audio_io"
      ("Wrote " ++ secondsText p ++ "s of audio to " ++ String.ofList path.text)
    tellWritten output p

/-- What formatting does with the formatted score. -/
inductive FormatMode where
  /-- It is printed. -/
  | print
  /-- It is compared with the score. -/
  | check
  /-- It is written to the score file. -/
  | inPlace
deriving DecidableEq, Repr

/-- Formats a score. -/
def format (file : Text) (mode : FormatMode) : Job Unit := do
  let t ← readScore file
  let shown := "'" ++ String.ofList file ++ "'"
  match Layout.format t with
  | .error f => crash (.arithmetic f)
  | .ok formatted =>
    match mode with
    | .print => print (String.ofList formatted)
    | .check =>
      if formatted = t then printLine (shown ++ " is already formatted.")
      else
        printError (shown ++ " would be reformatted.")
        exit 1
    | .inPlace =>
      match (← get).files.writeText (Path.ofText file) formatted with
      | .error e => failFile "Could not write score file: " e
      | .ok files =>
        modify fun t => { t with files := files }
        printLine ("Formatted " ++ shown ++ ".")

/-- Exports a score to a file of notes. -/
def exportNotes (file : Text) (given : Option Text) : Job Unit := do
  let output := outputFile file given ".mid"
  let p ← renderFile file
  let t ← readScore file
  let tempo := (openingTempo t).toOption.getD Midi.defaultTempo
  match Midi.Exporter.make tempo Midi.defaultVelocity with
  | .error e => crash (.exporting e)
  | .ok exporter =>
    let exported := Midi.exportTo exporter p.events (← get).files output
    modify fun t => { t with files := exported.files }
    match exported.failure with
    | some (.file e) => failFile "Could not write MIDI file: " e
    | some e => crash (.exporting e)
    | none =>
      report "hum.midi_exporter"
        ("Wrote " ++ toString (p.events.countP Midi.isWritten) ++ " note(s) on "
          ++ toString (Midi.voices p.events).length ++ " voice track(s) to "
          ++ String.ofList output)
      tellWritten output p

/-- The option that asks for help. -/
def helpOption : OptionSpec := ⟨"help", ["--help".toList], ['h'], false⟩

/-- The options before the command. -/
def programOptions : List OptionSpec :=
  [helpOption, ⟨"version", ["--version".toList], [], false⟩,
    ⟨"verbose", ["--verbose".toList], ['v'], false⟩]

/-- The option that names the file to be written. -/
def outputOption : OptionSpec := ⟨"output", ["--output".toList], ['o'], true⟩

/-- The options of the command with a name, and what it does with its arguments and the score
file; nothing if there is no such command. -/
def commandNamed? (name : String) : Option (List OptionSpec × (Arguments → Text → Job Unit)) :=
  match name with
  | "play" => some ([], fun _ file => play file)
  | "render" => some ([outputOption], fun a file => renderTo file (a.value? "output"))
  | "midi" => some ([outputOption], fun a file => exportNotes file (a.value? "output"))
  | "format" =>
    some ([⟨"check", ["--check".toList], [], false⟩,
        ⟨"in-place", ["--in-place".toList], ['i'], false⟩],
      fun a file =>
        if a.has "check" && a.has "in-place" then exit 2
        else format file
          (if a.has "check" then .check else if a.has "in-place" then .inPlace else .print))
  | _ => none

/-- Runs a command on its arguments.  A score file whose path holds a null character breaks the
command off before too many arguments are refused. -/
def runCommand (specs : List OptionSpec) (body : Arguments → Text → Job Unit)
    (arguments : List Text) : Job Unit := do
  match (← get).console.read? (helpOption :: specs) true arguments with
  | none => exit 2
  | some a =>
    if a.has "help" then printLine usage
    else match a.positions with
      | [] => exit 2
      | file :: more =>
        if file.contains Path.null then crash (.file .nullInPath)
        else if more.isEmpty && (← get).files.hasFile file then body a file
        else exit 2

/-- What the program tells about itself when an option before the command asks for it; the
first such option counts. -/
def answer? (a : Arguments) : Option String :=
  (a.options.find? fun o => o.1 == "help" || o.1 == "version").map fun o =>
    if o.1 == "version" then versionLine else usage

/-- Runs the program on its arguments.  Where the command should stand and does not, the
options of the program are looked for once more. -/
def run (arguments : List Text) : Job Unit := do
  let console := (← get).console
  match console.read? programOptions false arguments with
  | none => exit 2
  | some a =>
    match answer? a, a.positions with
    | some line, _ => printLine line
    | none, [] => exit 2
    | none, name :: rest =>
      match commandNamed? (String.ofList name) with
      | none =>
        match (console.read? programOptions false a.positions).bind answer? with
        | some line => printLine line
        | none => exit 2
      | some (specs, body) =>
        modify fun t => { t with verbose := a.has "verbose" }
        runCommand specs body rest

end Tunescript.CommandLine
