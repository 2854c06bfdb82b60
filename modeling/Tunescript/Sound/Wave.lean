import Tunescript.Number.Binary64
import Tunescript.Storage.Files

/-!
# Wave files

A wave file holds a track as 16-bit samples of one channel behind a header of 44 bytes.
Numbers are written with their lowest byte first.  A sample is scaled to 32 bits, rounded,
and cut down to its upper half; samples out of range become the outermost ones.

The suffix of the path tells the format of a file.  A rate has at most 32 bits and has to be
positive, but a place that cannot be written to is found first.  The file is written to what the
system sees of the path, up to its first null character.
-/

namespace Tunescript

/-- The sound in a wave file. -/
structure Wave where
  /-- The number of samples a second, which has to be positive in a file. -/
  rate : Int
  /-- The samples, from -32768 to 32767. -/
  samples : Array Int
deriving Repr

namespace Wave

/-- Whether an integer has at most the given number of bits, its sign not counted. -/
def fitsBits (bits : Nat) (n : Int) : Bool :=
  let bound : Int := Nat.pow 2 bits
  decide (-bound ≤ n ∧ n < bound)

/-- The greatest 32-bit sample. -/
def fullScale : Float := 2147483647.0

/-- The 16-bit sample of an amplitude. -/
def quantize (x : Float) : Int :=
  let scaled := x * fullScale
  if scaled ≥ fullScale then 32767
  else if scaled ≤ -2147483648.0 then -32768
  else match Binary64.nearestInt scaled with
    | .ok n => n.fdiv 65536
    | .error _ => -32768

/-- The sound of a track at a rate. -/
def ofTrack (samples : Array Float) (rate : Int) : Wave := ⟨rate, samples.map quantize⟩

/-- The lowest `count` bytes of a number, from the lowest one on. -/
def littleEndian (count n : Nat) : Bytes :=
  match count with
  | 0 => []
  | count + 1 => UInt8.ofNat (n % 256) :: littleEndian count (n / 256)

/-- The number with the given bytes, from the lowest one on. -/
def ofLittleEndian (bytes : Bytes) : Nat := bytes.foldr (fun b n => b.toNat + 256 * n) 0

/-- The bytes of a word in ASCII. -/
def tag (s : String) : Bytes := s.toList.map fun c => UInt8.ofNat c.toNat

/-- The number of bytes before the samples. -/
def headerLength : Nat := 44

/-- The header of a sound. -/
def header (w : Wave) : Bytes :=
  let size := 2 * w.samples.size
  let rate := w.rate.toNat
  tag "RIFF" ++ littleEndian 4 (headerLength - 8 + size) ++ tag "WAVE"
    ++ tag "fmt " ++ littleEndian 4 16 ++ littleEndian 2 1 ++ littleEndian 2 1
    ++ littleEndian 4 rate ++ littleEndian 4 (2 * rate) ++ littleEndian 2 2
    ++ littleEndian 2 16 ++ tag "data" ++ littleEndian 4 size

/-- The two bytes of a sample. -/
def sampleBytes (n : Int) : Bytes := littleEndian 2 (n % 65536).toNat

/-- The content of a wave file. -/
def encode (w : Wave) : Bytes :=
  header w ++ w.samples.toList.flatMap sampleBytes

/-- The samples that some bytes hold, behind those found so far. -/
def readSamples (found : Array Int) : Bytes → Array Int
  | a :: b :: rest =>
    let n : Int := a.toNat + 256 * b.toNat
    readSamples (found.push (if n < 32768 then n else n - 65536)) rest
  | _ => found

/-- The sound in a wave file. -/
def decode? (bytes : Bytes) : Option Wave :=
  if (bytes.take 4 == tag "RIFF") && ((bytes.drop 8).take 4 == tag "WAVE") then
    some ⟨ofLittleEndian ((bytes.drop 24).take 4), readSamples #[] (bytes.drop headerLength)⟩
  else none

/-- Why a file cannot be opened for a sound. -/
inductive OpenError where
  /-- The path is too long. -/
  | pathTooLong
  /-- The place of the file cannot be written to. -/
  | system
  /-- The rate is negative. -/
  | format
  /-- The rate is zero. -/
  | incomplete
deriving DecidableEq, Repr

/-- The wording of an open error. -/
def OpenError.message : OpenError → String
  | pathTooLong => "Supplied filename too long."
  | system => "System error."
  | format => "Format not recognised."
  | incomplete => "Internal error : SF_INFO struct incomplete."

/-- Why a wave file cannot be written. -/
inductive WriteError where
  /-- The file cannot be opened. -/
  | notOpened (path : Text) (cause : OpenError)
  /-- The suffix of the file names no format. -/
  | unknownFormat (path : Text)
  /-- The suffix of the file names a format that has no samples of 16 bits. -/
  | unfitFormat
  /-- The rate has more than 32 bits. -/
  | rateTooLarge (rate : Int)
deriving DecidableEq, Repr

/-- The wording of a write error. -/
def WriteError.message : WriteError → String
  | notOpened path cause =>
    let shown := "'" ++ String.ofList path ++ "'"
    "Cannot write WAV file " ++ shown ++ ": Error opening " ++ Text.quoted path
      ++ ": " ++ cause.message
  | unknownFormat path =>
    "No format specified and unable to get format from file extension: " ++ Text.quoted path
  | unfitFormat => "Invalid combination of format, subtype and endian"
  | rateTooLarge rate =>
    if fitsBits 63 rate then "integer " ++ toString rate ++ " does not fit 'int'"
    else "int too big to convert"

/-- The suffix of a wave file. -/
def suffix : Text := ".wav".toList

/-- The suffixes of the formats that have no samples of 16 bits. -/
def unfitSuffixes : List Text := [".ogg", ".mp3", ".xi", ".wve"].map String.toList

/-- Whether the name of a file has a suffix, in any case, behind something else than dots. -/
def hasSuffix (path : Path) (suffix : Text) : Bool :=
  match path.names.getLast? with
  | some name =>
    let stem := name.take (name.length - suffix.length)
    stem.any (· != '.') && (name.drop stem.length).map Char.toLower == suffix
  | none => false

/-- Whether a file can be opened for a sound at a rate. -/
def checkRate (rate : Int) : Except OpenError Unit :=
  if rate < 0 then .error .format
  else if rate = 0 then .error .incomplete
  else .ok ()

/-- The greatest number of bytes of the path of a file. -/
def pathLimit : Nat := 1024

/-- The files with the content of a sound written to a path, if its rate is positive. -/
def writeContent (w : Wave) (fs : Files) (path : Path) : Except OpenError Files := do
  let seen := Path.seen path.text
  if pathLimit < (Text.encode seen).length then throw .pathTooLong
  let fs ← (fs.writeAt seen w.encode).mapError fun _ => .system
  checkRate w.rate
  return fs

/-- The files with a sound written to a path. -/
def write (w : Wave) (fs : Files) (path : Path) : Except WriteError Files :=
  let unfit := unfitSuffixes.any (hasSuffix path)
  if !hasSuffix path suffix && !unfit then .error (.unknownFormat path.text)
  else if !fitsBits 31 w.rate then .error (.rateTooLarge w.rate)
  else if unfit then .error .unfitFormat
  else (w.writeContent fs path).mapError (.notOpened path.text)

end Wave

end Tunescript
