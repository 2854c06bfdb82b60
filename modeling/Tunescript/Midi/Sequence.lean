import Tunescript.Midi.Call

/-!
# Sequences and their files

Calls put messages into the tracks of a sequence, at times counted in ticks.  A file holds a
header and, for every track, its messages in the order of their ticks, each after the number
of ticks since the one before.  Within a tick names come first, then programs, then the ends
of notes and then their starts.
-/

namespace Tunescript.Midi

/-- The number of ticks in a beat. -/
def ticksPerBeat : Float := 960.0

/-- What a message says. -/
inductive Content where
  /-- The length of a beat in microseconds. -/
  | tempo (microseconds : Int)
  /-- The name of the track. -/
  | name (bytes : Bytes)
  /-- The program of a channel. -/
  | program (channel program : Nat)
  /-- The end of a note. -/
  | noteOff (channel : Nat) (pitch velocity : Int)
  /-- The start of a note. -/
  | noteOn (channel : Nat) (pitch velocity : Int)
deriving DecidableEq, Repr

/-- A message at a time. -/
structure Message where
  /-- The time in ticks. -/
  tick : Int
  /-- What it says. -/
  content : Content
deriving DecidableEq, Repr

/-- The rank of a message among those of its tick. -/
def Content.rank : Content → Nat
  | tempo _ | name _ => 0
  | program .. => 1
  | noteOff .. => 2
  | noteOn .. => 3

/-- The messages of the tracks; the conductor comes first, an empty track second, and the
voices after them. -/
abbrev Sequence := List (List Message)

/-- The sequence with messages added to a track. -/
def addTo (s : Sequence) (track : Nat) (messages : List Message) : Sequence :=
  s.modify track (· ++ messages)

/-- A time in ticks. -/
def ticks (beats : Float) : Except ArithmeticFault Int := Binary64.truncate (beats * ticksPerBeat)

/-- The sequence after a call. -/
def carryOut (s : Sequence) : Call → Except ExportError Sequence
  | .tracks count => .ok (List.replicate (count + 1) [])
  | .tempo track value => do
    let n ← (Binary64.truncate (60000000.0 / value)).mapError .arithmetic
    return addTo s track [⟨0, .tempo n⟩]
  | .name track text => do
    let bytes ← (Text.encodeLatin1 text).mapError .voice
    return addTo s (track + 1) [⟨0, .name bytes⟩]
  | .program track channel program => .ok (addTo s (track + 1) [⟨0, .program channel program⟩])
  | .note track channel pitch start duration velocity => do
    let first ← (ticks start).mapError .arithmetic
    let length ← (ticks duration).mapError .arithmetic
    return addTo s (track + 1)
      [⟨first, .noteOn channel pitch velocity⟩, ⟨first + length, .noteOff channel pitch velocity⟩]

/-- The calls that were made, and the sequence that they built or why they ended. -/
structure Built where
  /-- The calls that were made. -/
  calls : List Call
  /-- The sequence. -/
  result : Except ExportError Sequence

/-- The result of making calls one after the other. -/
def build (s : Sequence) : List (Except ArithmeticFault Call) → Built
  | [] => ⟨[], .ok s⟩
  | .error f :: _ => ⟨[], .error (.arithmetic f)⟩
  | .ok c :: cs =>
    match carryOut s c with
    | .error e => ⟨[c], .error e⟩
    | .ok s =>
      let rest := build s cs
      ⟨c :: rest.calls, rest.result⟩

/-- The lowest `count` bytes of a number, from the highest one on. -/
def bigEndian (count n : Nat) : Bytes :=
  match count with
  | 0 => []
  | count + 1 => bigEndian count (n / 256) ++ [UInt8.ofNat (n % 256)]

/-- The groups of seven bits of a number above its lowest group, each marked as continued. -/
def continuedGroups (n : Nat) : Bytes :=
  if _h : n = 0 then [] else continuedGroups (n / 128) ++ [UInt8.ofNat (128 + n % 128)]
termination_by n
decreasing_by exact Nat.div_lt_self (Nat.pos_of_ne_zero _h) (by decide)

/-- A number in groups of seven bits. -/
def variableLength (n : Nat) : Bytes := continuedGroups (n / 128) ++ [UInt8.ofNat (n % 128)]

/-- The ticks since the message before; a message before it writes nothing. -/
def delta (n : Int) : Bytes := if n < 0 then [] else variableLength n.toNat

/-- The bytes of a note message. -/
def noteBytes (status : Nat) (channel : Nat) (pitch velocity : Int) : Except ExportError Bytes :=
  if 0 ≤ velocity ∧ velocity < 256 then
    .ok [UInt8.ofNat (status + channel), UInt8.ofNat pitch.toNat, UInt8.ofNat velocity.toNat]
  else .error .velocity

/-- The bytes of what a message says. -/
def Content.encode : Content → Except ExportError Bytes
  | tempo n =>
    if 0 ≤ n ∧ n < 0x100000000 then .ok ([0xff, 0x51, 0x03] ++ bigEndian 3 n.toNat)
    else .error .beatTooLong
  | name bytes => .ok ([0xff, 0x03] ++ variableLength bytes.length ++ bytes)
  | program channel number => .ok [UInt8.ofNat (0xc0 + channel), UInt8.ofNat number]
  | noteOff channel pitch velocity => noteBytes 0x80 channel pitch velocity
  | noteOn channel pitch velocity => noteBytes 0x90 channel pitch velocity

/-- Whether a message comes before another, or at the same place. -/
def Message.comesBefore (a b : Message) : Bool :=
  a.tick < b.tick || (a.tick == b.tick && a.content.rank ≤ b.content.rank)

/-- The bytes of messages in their order after the given tick. -/
def encodeFrom (tick : Int) : List Message → Except ExportError Bytes
  | [] => .ok []
  | m :: ms => do
    let content ← m.content.encode
    let rest ← encodeFrom m.tick ms
    return delta (m.tick - tick) ++ content ++ rest

/-- The message that ends a track. -/
def endOfTrack : Bytes := [0x00, 0xff, 0x2f, 0x00]

/-- A chunk of a file. -/
def chunk (name : String) (content : Bytes) : Bytes :=
  (name.toList.map fun c => UInt8.ofNat c.toNat) ++ bigEndian 4 content.length ++ content

/-- The chunk of a track. -/
def trackChunk (messages : List Message) : Except ExportError Bytes := do
  let bytes ← encodeFrom 0 (messages.mergeSort Message.comesBefore)
  return chunk "MTrk" (bytes ++ endOfTrack)

/-- The content of the file of a sequence. -/
def encode (s : Sequence) : Except ExportError Bytes := do
  let tracks ← s.mapM trackChunk
  return chunk "MThd" (bigEndian 2 1 ++ bigEndian 2 s.length ++ bigEndian 2 960) ++ tracks.flatten

/-- What came of an export. -/
structure Exported where
  /-- The calls that were made. -/
  calls : List Call
  /-- The files afterwards. -/
  files : Files
  /-- Why there is no file of the sequence. -/
  failure : Option ExportError

/-- The files with the content of a sequence written to a path.  The file is opened before the
sequence is encoded, so that it is left empty if that fails. -/
def writeFile (s : Sequence) (fs : Files) (path : Text) : Files × Option ExportError :=
  match fs.writeAt path [] with
  | .error e => (fs, some (.file e))
  | .ok opened =>
    match encode s with
    | .error e => (opened, some e)
    | .ok bytes =>
      match fs.writeAt path bytes with
      | .error e => (opened, some (.file e))
      | .ok written => (written, none)

/-- The export of some events to the file at a path. -/
def exportTo (x : Exporter) (events : List (Event Float)) (fs : Files) (path : Text) : Exported :=
  let built := build [] (plan x events)
  match built.result with
  | .error e => ⟨built.calls, fs, some e⟩
  | .ok s =>
    let (files, failure) := writeFile s fs path
    ⟨built.calls, files, failure⟩

end Tunescript.Midi
