import Tunescript.Storage.Path
import Tunescript.Text.Quoted
import Tunescript.Text.Utf8

/-!
# Files

The files and directories below a top directory, together with what lies outside of it, of which
only the root directory and the directories above are known.  A path is followed name by name,
and every name on the way has to be that of a directory.
-/

namespace Tunescript

/-- What is found at a path. -/
inductive Node where
  /-- A file with its content. -/
  | file (content : Bytes)
  /-- A directory. -/
  | directory
deriving DecidableEq, Repr

/-- Why a file cannot be read or written. -/
inductive FileError where
  /-- There is nothing at the path. -/
  | noEntry (path : Text)
  /-- The path leads through a file. -/
  | notDirectory (path : Text)
  /-- There is a directory at the path. -/
  | isDirectory (path : Text)
  /-- The path or a name on the way is too long. -/
  | nameTooLong (path : Text)
  /-- There is no room left. -/
  | noSpace
  /-- The path holds a null character, so that the system is not asked at all. -/
  | nullInPath
deriving DecidableEq, Repr

namespace FileError

/-- The number that the system gives to an error. -/
def number? : FileError → Option Nat
  | noEntry _ => some 2
  | notDirectory _ => some 20
  | isDirectory _ => some 21
  | noSpace => some 28
  | nameTooLong _ => some 36
  | nullInPath => none

/-- Whether the system reports an error. -/
def isSystem (e : FileError) : Bool := e.number?.isSome

/-- What is wrong, in words. -/
def description : FileError → String
  | noEntry _ => "No such file or directory"
  | notDirectory _ => "Not a directory"
  | isDirectory _ => "Is a directory"
  | noSpace => "No space left on device"
  | nameTooLong _ => "File name too long"
  | nullInPath => "embedded null byte"

/-- The path that an error names. -/
def path? : FileError → Option Text
  | noEntry p | notDirectory p | isDirectory p | nameTooLong p => some p
  | noSpace | nullInPath => none

/-- The wording of an error. -/
def message (e : FileError) : String :=
  (match e.number? with
    | some n => "[Errno " ++ toString n ++ "] "
    | none => "") ++ e.description
    ++ (match e.path? with
      | some p => ": " ++ Text.quoted p
      | none => "")

end FileError

/-- The files and directories below the top directory, by the names on the way to them. -/
structure Files where
  /-- The nodes with their names. -/
  nodes : List (List Text × Node)
  /-- Whether there is no room for texts. -/
  full : Bool := false
deriving Repr

namespace Files

/-- No files. -/
def empty : Files := ⟨[], false⟩

/-- The node at some names. -/
def node? (fs : Files) (names : List Text) : Option Node :=
  if Path.leadsUp names then some .directory else fs.nodes.lookup names

/-- The nodes below the top directory. -/
def inside (fs : Files) : List (List Text × Node) :=
  fs.nodes.filter fun e => e.1.head? != some Path.root && e.1.head? != some Path.parent

/-- The files with a node put at some names. -/
def put (fs : Files) (names : List Text) (node : Node) : Files :=
  if (fs.nodes.lookup names).isSome then
    { fs with nodes := fs.nodes.map fun e => if e.1 = names then (names, node) else e }
  else { fs with nodes := fs.nodes ++ [(names, node)] }

/-- The files with the directories above some names, as far as they are missing. -/
def makeParents (fs : Files) (names : List Text) : Files :=
  (List.range (names.length - 1)).foldl (fun fs i =>
    let above := names.take (i + 1)
    if (fs.node? above).isSome then fs else fs.put above .directory) fs

/-- The names at which a path leads to, from the given names on. -/
def follow (fs : Files) (shown : Text) : List Text → List Text → Except FileError (List Text)
  | here, [] => .ok here
  | here, name :: names =>
    match fs.node? here with
    | none => .error (.noEntry shown)
    | some (.file _) => .error (.notDirectory shown)
    | some .directory =>
      if Path.nameLimit < (Text.encode name).length then .error (.nameTooLong shown)
      else fs.follow shown (Path.step here name) names

/-- The names at which a path leads to; the system is asked for it as `shown`. -/
def resolve (fs : Files) (path : Path) (shown : Text) : Except FileError (List Text) :=
  if shown.contains Path.null then .error .nullInPath
  else if Path.lengthLimit ≤ (Text.encode shown).length then .error (.nameTooLong shown)
  else fs.follow shown [] path.way

/-- The content of the file at a path. -/
def read (fs : Files) (path : Path) (shown : Text) : Except FileError Bytes := do
  let names ← fs.resolve path shown
  match fs.node? names with
  | none => .error (.noEntry shown)
  | some .directory => .error (.isDirectory shown)
  | some (.file content) => .ok content

/-- The files with a content written to a path. -/
def write (fs : Files) (path : Path) (shown : Text) (content : Bytes) :
    Except FileError Files := do
  let names ← fs.resolve path shown
  match fs.node? names with
  | some .directory => .error (.isDirectory shown)
  | _ => .ok (fs.put names (.file content))

/-- The files with a content written to the path that a text writes, where a text that can only
be the path of a directory is refused. -/
def writeAt (fs : Files) (t : Text) (content : Bytes) : Except FileError Files :=
  if t.isEmpty then .error (.noEntry t)
  else if Path.namesDirectory t then do
    let names ← fs.resolve (Path.ofText t) t
    match fs.node? names with
    | some (.file _) => .error (.notDirectory t)
    | _ => .error (.isDirectory t)
  else fs.write (Path.ofText t) t content

/-- Why the text of a file cannot be read. -/
inductive ReadError where
  /-- The file cannot be read. -/
  | file (e : FileError)
  /-- Its content is no text. -/
  | encoding (e : Text.DecodeError)
deriving DecidableEq, Repr

/-- The wording of a read error. -/
def ReadError.message : ReadError → String
  | file e => e.message
  | encoding e => e.message

/-- The text of the file at a path. -/
def readText (fs : Files) (path : Path) : Except ReadError Text := do
  let bytes ← (fs.read path path.text).mapError .file
  let t ← (Text.decode bytes).mapError .encoding
  return Text.unifyLineEnds t

/-- The files with a text written to a path. -/
def writeText (fs : Files) (path : Path) (t : Text) : Except FileError Files :=
  if fs.full then .error .noSpace else fs.write path path.text (Text.encode t)

/-- Whether a text names an existing file. -/
def hasFile (fs : Files) (t : Text) : Bool :=
  !Path.namesDirectory t && (fs.read (Path.ofText t) t).isOk

end Files

end Tunescript
