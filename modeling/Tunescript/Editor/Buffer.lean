import Tunescript.Text.Index
import Tunescript.Text.Lines

/-!
# Text buffers

A buffer keeps a text in chunks, so that an edit rebuilds only the chunks it touches and a
snapshot, which is the list of chunks, shares the others.  The first main operation puts a
text in at a position, the second takes a range out; both refuse positions outside the text.
-/

namespace Tunescript

/-- The chunks of a buffer at some time. -/
abbrev Snapshot := List Text

/-- A text in chunks. -/
structure Buffer where
  /-- The chunks in order, none of them empty. -/
  chunks : Snapshot
deriving DecidableEq, Repr

/-- Why a position is refused. -/
inductive BufferError where
  /-- There is no character at a position. -/
  | noCharacter
  /-- There is no such line. -/
  | noLine
  /-- A position lies outside the text. -/
  | position (i : Int) (length : Nat)
  /-- A text was to be put in outside the text. -/
  | insertion (i : Int) (length : Nat)
  /-- A range to be taken out lies outside the text. -/
  | removal (start stop : Int) (length : Nat)
deriving DecidableEq, Repr

/-- The wording of a buffer error. -/
def BufferError.message : BufferError → String
  | noCharacter => "string index out of range"
  | noLine => "list index out of range"
  | position i length =>
    "Character index " ++ toString i ++ " out of range 0.." ++ toString length
  | insertion i length =>
    "Insert position " ++ toString i ++ " out of range 0.." ++ toString length
  | removal start stop length =>
    "Remove range " ++ toString start ++ ".." ++ toString stop ++ " out of range 0.."
      ++ toString length

namespace Buffer

/-- The greatest length of a new chunk. -/
def chunkSize : Nat := 1024

/-- A text cut into chunks. -/
def cut (t : Text) : Snapshot :=
  if _h : t = [] then [] else t.take chunkSize :: cut (t.drop chunkSize)
termination_by t.length
decreasing_by
  have : 0 < t.length := List.length_pos_iff.2 _h
  simp only [List.length_drop, chunkSize]
  omega

/-- The buffer of a text. -/
def ofText (t : Text) : Buffer := ⟨cut t⟩

/-- The text of a buffer. -/
def text (b : Buffer) : Text := b.chunks.flatten

/-- The number of characters in a buffer. -/
def length (b : Buffer) : Nat := b.text.length

/-- The chunks with a text put in at a position: the chunk that holds the position is cut
again together with the text. -/
def insertInto (s : Text) : (i : Nat) → Snapshot → Snapshot
  | _, [] => cut s
  | i, [c] => cut (c.take i ++ s ++ c.drop i)
  | i, c :: d :: cs =>
    if i < c.length then cut (c.take i ++ s ++ c.drop i) ++ d :: cs
    else c :: insertInto s (i - c.length) (d :: cs)

/-- What follows a position: the rest of the chunk before it, and the chunks after that. -/
def after : (i : Nat) → Snapshot → Text × Snapshot
  | _, [] => ([], [])
  | i, c :: cs => if i ≤ c.length then (c.drop i, cs) else after (i - c.length) cs

/-- The chunks without a range that is not empty: what remains of its first and its last
chunk becomes one chunk. -/
def removeFrom : (start stop : Nat) → Snapshot → Snapshot
  | _, _, [] => []
  | start, stop, c :: cs =>
    if start < c.length then
      let (tail, rest) := after stop (c :: cs)
      let merged := c.take start ++ tail
      if merged.isEmpty then rest else merged :: rest
    else c :: removeFrom (start - c.length) (stop - c.length) cs

/-- The buffer with a text put in at a position. -/
def insert (b : Buffer) (i : Int) (s : Text) : Except BufferError Buffer :=
  if 0 ≤ i ∧ i ≤ b.length then
    .ok (if s.isEmpty then b else ⟨insertInto s i.toNat b.chunks⟩)
  else .error (.insertion i b.length)

/-- The buffer without a range. -/
def remove (b : Buffer) (start stop : Int) : Except BufferError Buffer :=
  if 0 ≤ start ∧ start ≤ stop ∧ stop ≤ b.length then
    .ok (if start = stop then b else ⟨removeFrom start.toNat stop.toNat b.chunks⟩)
  else .error (.removal start stop b.length)

/-- The chunks of a buffer, to be brought back later. -/
def snapshot (b : Buffer) : Snapshot := b.chunks

/-- The buffer with the chunks of an earlier time. -/
def restore (_ : Buffer) (s : Snapshot) : Buffer := ⟨s⟩

/-- The character at a signed position. -/
def char (b : Buffer) (i : Int) : Except BufferError Char :=
  match (Text.place? b.length i).bind (b.text[·]?) with
  | some c => .ok c
  | none => .error .noCharacter

/-- The characters between two signed bounds. -/
def slice (b : Buffer) (start : Int) (stop : Option Int) : Text := Text.slice b.text start stop

/-- The lines of a buffer, one more than it has line ends. -/
def lines (b : Buffer) : List Text := Text.rows b.text

/-- The number of lines. -/
def lineCount (b : Buffer) : Nat := b.lines.length

/-- The position at which a line starts; a negative number counts lines from the end. -/
def lineStart (b : Buffer) (i : Int) : Except BufferError Nat :=
  match (Text.place? b.lineCount i).bind ((Text.rowStarts b.text)[·]?) with
  | some n => .ok n
  | none => .error .noLine

/-- A line with its line end: the text from its start to the start of the next line, or to
the end if it is the last. -/
def line (b : Buffer) (i : Int) : Except BufferError Text := do
  let start ← b.lineStart i
  if i + 1 < b.lineCount then
    let stop ← b.lineStart (i + 1)
    return b.slice start (some stop)
  else return b.slice start none

/-- The line that holds a position; the end of the text lies in the last line. -/
def lineAt (b : Buffer) (i : Int) : Except BufferError Nat :=
  if 0 ≤ i ∧ i ≤ b.length then .ok ((b.text.take i.toNat).count '\n')
  else .error (.position i b.length)

end Buffer

end Tunescript
