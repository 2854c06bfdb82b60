import Tunescript.Text.Basic

/-!
# Paths

A path is a list of names, separated by slashes in its text.  Empty names and names of a
single dot do not count; two dots name the directory above.  All paths start at one top
directory, in which the root directory and the directories above have names of their own.
Exactly two slashes at the start of a path are kept in its text; more of them count as one.

The system ends the text of a path at its first null character, so that a text which holds
one names nothing.  It also refuses texts and names of too many bytes.
-/

namespace Tunescript

/-- The name of a file or directory from some directory on. -/
structure Path where
  /-- The number of slashes before the names, none if it starts at the current directory. -/
  slashes : Nat
  /-- The names on the way. -/
  names : List Text
deriving DecidableEq, Repr

namespace Path

/-- The path that a text writes. -/
def ofText (t : Text) : Path :=
  let slashes := (t.takeWhile (· == '/')).length
  ⟨if slashes = 2 then 2 else min slashes 1,
    (Text.pieces '/' t).filter fun n => !n.isEmpty && n != ['.']⟩

/-- The text of a path. -/
def text (p : Path) : Text :=
  let names := List.flatten (p.names.intersperse ['/'])
  if p.slashes = 0 ∧ names.isEmpty then ['.'] else List.replicate p.slashes '/' ++ names

/-- Whether a text can only be the path of a directory, because it ends in a slash or in a
single dot for a name. -/
def namesDirectory (t : Text) : Bool :=
  match (Text.pieces '/' t).getLast? with
  | some name => name.isEmpty || name == ['.']
  | none => true

/-- The character at which the system ends the text of a path. -/
def null : Char := '\x00'

/-- What the system reads of a text. -/
def seen (t : Text) : Text := t.takeWhile (· != null)

/-- The number of bytes with which the text of a path is too long. -/
def lengthLimit : Nat := 4096

/-- The greatest number of bytes of a name. -/
def nameLimit : Nat := 255

/-- The name under which the root directory is found at the top. -/
def root : Text := ['/']

/-- The name of the directory above. -/
def parent : Text := "..".toList

/-- The names on the way from the top. -/
def way (p : Path) : List Text := if p.slashes = 0 then p.names else root :: p.names

/-- The path with the given names on the way from the top. -/
def ofWay : List Text → Path
  | [] => ⟨0, []⟩
  | name :: names => if name = root then ⟨1, names⟩ else ⟨0, name :: names⟩

/-- Whether some names lead to the top directory, to one above it or to the root directory. -/
def leadsUp (names : List Text) : Bool := names == [root] || names.all (· == parent)

/-- The names from the top after one more name on the way.  Nothing lies above the root
directory. -/
def step (here : List Text) (name : Text) : List Text :=
  if name = parent then
    if here = [root] then here
    else if here.all (· == parent) then here ++ [parent]
    else here.dropLast
  else here ++ [name]

/-- The places on the way to a path, the last of them the path itself. -/
def stations (p : Path) : List (List Text) :=
  (List.range p.way.length).map fun i : Nat => (p.way.take (i + 1)).foldl step []

/-- The path of a name in a directory. -/
def child (p : Path) (name : Text) : Path := { p with names := p.names ++ [name] }

/-- A name without its suffix, the part from its last dot on.  A dot at either end of the
name starts no suffix. -/
def stem (name : Text) : Text :=
  match Text.lastIndexOf? '.' name with
  | some i => if 0 < i ∧ i + 1 < name.length then name.take i else name
  | none => name

/-- The path with the suffix of its last name replaced. -/
def withSuffix (p : Path) (suffix : Text) : Path :=
  match p.names.getLast? with
  | some name => { p with names := p.names.dropLast ++ [stem name ++ suffix] }
  | none => p

end Path

end Tunescript
