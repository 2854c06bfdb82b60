import Tunescript.Editor.Buffer

/-!
# Buffers with an index

A buffer need not count through its chunks at each edit, nor join its text and look for its
lines each time it is asked for them.  It can keep where its chunks start, find the chunk of a
position there by halving, and keep its text and the starts of its lines from when they are first
asked for until an edit puts other chunks in their place.
-/

namespace Tunescript

namespace Text

/-- The positions behind the line ends that are found from a position on. -/
def startsFrom (t : Text) (i : Nat) : List Nat :=
  match _h : indexFrom? '\n' t i with
  | some p => (p + 1) :: startsFrom t (p + 1)
  | none => []
termination_by t.length - i
decreasing_by
  have := indexFrom?_lt _h
  have := le_indexFrom? _h
  omega

end Text

namespace Buffer

/-- An operation on what is edited.  What it did before it failed stays done. -/
abbrev Program (β : Type) := EStateM BufferError β

/-- The number of entries up to a bound in a list in order, by halving the range in which it
lies. -/
def bisect (starts : List Nat) (n lo hi : Nat) : Nat :=
  if lo < hi then
    let middle := (lo + hi) / 2
    if n < starts.getD middle 0 then bisect starts n lo middle
    else bisect starts n (middle + 1) hi
  else lo
termination_by hi - lo

/-- The positions at which the chunks start, and at last the one at which they end. -/
def startsOf (cs : Snapshot) : List Nat := cs.scanl (fun n c => n + c.length) 0

/-- A buffer that keeps where its chunks start, and its text and the starts of its lines once it
has been asked for them. -/
structure Indexed extends Buffer where
  /-- The positions at which the chunks start, and at last the one at which they end. -/
  chunkStarts : List Nat
  /-- The text, if it is kept. -/
  joined : Option Text
  /-- The positions at which the lines start, if they are kept. -/
  lineStarts : Option (List Nat)

namespace Indexed

/-- The buffer with the given chunks, which keeps neither its text nor its lines yet. -/
def ofChunks (cs : Snapshot) : Indexed := ⟨⟨cs⟩, startsOf cs, none, none⟩

/-- The buffer of a text. -/
def ofText (t : Text) : Indexed := ofChunks (cut t)

/-- The number of characters, which is where the last chunk ends. -/
def size (x : Indexed) : Nat := x.chunkStarts.getLastD 0

/-- The number of the chunk that holds a position; the end of the text lies in the last one. -/
def chunkAt (x : Indexed) (i : Nat) : Nat :=
  min (bisect x.chunkStarts i 0 x.chunkStarts.length - 1) (x.chunks.length - 1)

/-- A chunk, and how far a position lies behind its start. -/
def chunkWith (x : Indexed) (k i : Nat) : Text × Nat :=
  (x.chunks.getD k [], i - x.chunkStarts.getD k 0)

/-- The text, joined if it is not kept. -/
def readText : Program Indexed Text := do
  let x ← get
  match x.joined with
  | some t => return t
  | none =>
    set { x with joined := some x.chunks.flatten }
    return x.chunks.flatten

/-- The starts of the lines, looked for if they are not kept. -/
def readLineStarts : Program Indexed (List Nat) := do
  match (← get).lineStarts with
  | some starts => return starts
  | none =>
    let starts := 0 :: Text.startsFrom (← readText) 0
    modify fun x => { x with lineStarts := some starts }
    return starts

/-- The character at a signed position. -/
def char (i : Int) : Program Indexed Char := do
  let t ← readText
  match (Text.place? t.length i).bind (t[·]?) with
  | some c => return c
  | none => throw .noCharacter

/-- The characters between two signed bounds. -/
def slice (start : Int) (stop : Option Int) : Program Indexed Text := do
  return Text.slice (← readText) start stop

/-- The number of lines. -/
def lineCount : Program Indexed Nat := do return (← readLineStarts).length

/-- The position at which a line starts; a negative number counts lines from the end. -/
def lineStart (i : Int) : Program Indexed Nat := do
  let starts ← readLineStarts
  match (Text.place? starts.length i).bind (starts[·]?) with
  | some n => return n
  | none => throw .noLine

/-- A line with its line end: the text from its start to the start of the next line, or to the end
if it is the last. -/
def line (i : Int) : Program Indexed Text := do
  let start ← lineStart i
  if i + 1 < (← lineCount) then
    let stop ← lineStart (i + 1)
    slice start (some stop)
  else slice start none

/-- The line that holds a position; the end of the text lies in the last line. -/
def lineAt (i : Int) : Program Indexed Nat := do
  let x ← get
  if 0 ≤ i ∧ i ≤ x.size then
    let starts ← readLineStarts
    return bisect starts i.toNat 0 starts.length - 1
  else throw (.position i x.size)

/-- The lines, one after the other. -/
def lines : Program Indexed (List Text) := do
  (List.range (← lineCount)).mapM fun i : Nat => line i

/-- Puts a text in at a position: the chunk that holds the position is cut again together with the
text. -/
def insert (i : Int) (s : Text) : Program Indexed Unit := do
  let x ← get
  if ¬(0 ≤ i ∧ i ≤ x.size) then throw (.insertion i x.size)
  else if s.isEmpty then return
  else if x.chunks.isEmpty then set (ofChunks (cut s))
  else
    let k := x.chunkAt i.toNat
    let (c, offset) := x.chunkWith k i.toNat
    let merged := c.take offset ++ s ++ c.drop offset
    set (ofChunks (x.chunks.take k ++ cut merged ++ x.chunks.drop (k + 1)))

/-- Takes a range out: what remains of its first and its last chunk becomes one chunk. -/
def remove (start stop : Int) : Program Indexed Unit := do
  let x ← get
  if ¬(0 ≤ start ∧ start ≤ stop ∧ stop ≤ x.size) then throw (.removal start stop x.size)
  else if start = stop then return
  else
    let first := x.chunkAt start.toNat
    let last := x.chunkAt (stop.toNat - 1)
    let (c, before) := x.chunkWith first start.toNat
    let (d, behind) := x.chunkWith last stop.toNat
    let merged := c.take before ++ d.drop behind
    let rest := x.chunks.drop (last + 1)
    set (ofChunks (x.chunks.take first ++ if merged.isEmpty then rest else merged :: rest))

/-- Puts a text in the place of everything. -/
def setText (t : Text) : Program Indexed Unit := set (ofText t)

/-- Brings back the chunks of an earlier time. -/
def restore (s : Snapshot) : Program Indexed Unit := set (ofChunks s)

end Indexed

end Buffer

end Tunescript
