import Tunescript.Text.Quoted

/-!
# The preview player

Previews are played by processes of an external command, one at a time: starting a preview
first kills the process of the one before.  The processes of the host are given by how each
of them behaves, and the host keeps a record of what was done to them.
-/

namespace Tunescript

/-- How a process behaves, from its start on. -/
inductive Behaviour where
  /-- It runs until it is killed. -/
  | running
  /-- It has ended by itself. -/
  | ended
  /-- It is gone when it is to be killed. -/
  | gone
  /-- It does not end in time after it was killed. -/
  | stuck
  /-- Its program does not exist. -/
  | missing
  /-- It is refused. -/
  | refused
deriving DecidableEq, Repr

/-- Why a process cannot be started. -/
inductive StartError where
  /-- Its program does not exist. -/
  | missing (program : Text)
  /-- It is refused. -/
  | refused
deriving DecidableEq, Repr

/-- The wording of a start error. -/
def StartError.message : StartError → String
  | missing program => "[Errno 2] No such file or directory: " ++ Text.quoted program
  | refused => "player refused to start"

/-- What is done to a process; processes are numbered from one in the order of the attempts
to start them. -/
inductive ProcessEvent where
  /-- An attempt to start it with the given arguments. -/
  | spawn (process : Nat) (arguments : List Text)
  /-- It is killed. -/
  | kill (process : Nat)
  /-- Its end is waited for. -/
  | wait (process : Nat)
deriving DecidableEq, Repr

/-- The processes of the host. -/
structure Host where
  /-- The behaviour of the processes; those that follow run until they are killed. -/
  script : List Behaviour := []
  /-- The number of attempts to start a process. -/
  spawned : Nat := 0
  /-- What was done to the processes. -/
  record : List ProcessEvent := []
deriving Repr

namespace Host

/-- The behaviour of a process. -/
def behaviour (h : Host) (process : Nat) : Behaviour := h.script.getD (process - 1) .running

/-- The host with an event on record. -/
def note (h : Host) (e : ProcessEvent) : Host := { h with record := h.record ++ [e] }

/-- The attempt to start a process: its number or an error, and the host after it. -/
def spawn (h : Host) (arguments : List Text) : Except StartError Nat × Host :=
  let process := h.spawned + 1
  let after := { h with spawned := process }.note (.spawn process arguments)
  match h.behaviour process with
  | .missing => (.error (.missing (arguments.headD [])), after)
  | .refused => (.error .refused, after)
  | _ => (.ok process, after)

/-- The host after a process was killed and its end waited for; a process that is gone is not
waited for. -/
def stop (h : Host) (process : Nat) : Host :=
  let killed := h.note (.kill process)
  if h.behaviour process = .gone then killed else killed.note (.wait process)

end Host

/-- The player of previews. -/
structure Player where
  /-- The program and its arguments before the file. -/
  command : List Text
  /-- The process of the current preview. -/
  process : Option Nat := none
  /-- The processes of the host. -/
  host : Host := {}
deriving Repr

namespace Player

/-- Whether a preview is playing. -/
def isPlaying (p : Player) : Bool :=
  match p.process with
  | some n => p.host.behaviour n != .ended
  | none => false

/-- The player after the current preview was stopped, and whether there was one. -/
def stop (p : Player) : Bool × Player :=
  match p.process with
  | some n => (true, { p with process := none, host := p.host.stop n })
  | none => (false, p)

/-- The player after a preview of a file was started, and why it was not. -/
def start (p : Player) (file : Text) : Option StartError × Player :=
  let idle := p.stop.2
  match idle.host.spawn (p.command ++ [file]) with
  | (.ok n, host) => (none, { idle with process := some n, host := host })
  | (.error e, host) => (some e, { idle with host := host })

/-- The player after previews of some files were started one after the other, up to the
first that was not. -/
def startAll (p : Player) : List Text → Option StartError × Player
  | [] => (none, p)
  | file :: files =>
    match p.start file with
    | (none, p) => p.startAll files
    | (some e, p) => (some e, p)

/-- The player after a session of previews, which is closed at its end in any case. -/
def session (p : Player) (files : List Text) : Option StartError × Player :=
  let (e, p) := p.startAll files
  (e, p.stop.2)

end Player

end Tunescript
