import Tunescript.Proofs.Editor.BufferRuns
import Tunescript.Proofs.Editor.ChunkIndex
import Tunescript.Proofs.Text.RowStarts
import Tunescript.Proofs.Text.Search

/-!
# An index of the lines

A buffer that searches for its line ends once, keeps the positions behind them, and finds a line
among them by halving gives the answers of a buffer that looks for its lines each time, as long as
what it keeps is that of its chunks (`reads_answer`).
-/

namespace Tunescript

namespace Text

theorem startsFrom_of_some {t : Text} {i p : Nat} (h : indexFrom? '\n' t i = some p) :
  startsFrom t i = (p + 1) :: startsFrom t (p + 1)
  := by
  rw [startsFrom]
  split
  · rename_i q hq
    obtain rfl := Option.some_inj.mp (h.symm.trans hq)
    rfl
  · rename_i hq
    cases h.symm.trans hq

theorem startsFrom_of_none {t : Text} {i : Nat} (h : indexFrom? '\n' t i = none) :
  startsFrom t i = []
  := by
  rw [startsFrom]
  split
  · rename_i q hq
    cases h.symm.trans hq
  · rfl

/-- Behind a text, the rows of another start at its end and behind the line ends that are found from
there on. -/
theorem startsFrom_append (u t : Text) :
  u.length :: startsFrom (u ++ t) u.length = offsets u.length (rows t)
  := by
  induction t using rows_induction generalizing u with
  | single r hr =>
    have hfound : indexFrom? '\n' (u ++ r) u.length = none := by
      rw [indexFrom?_append, indexOf?_eq_none hr]
      rfl
    rw [startsFrom_of_none hfound, rows_of_not_mem hr]
    rfl
  | append r t hr ih =>
    have hfound : indexFrom? '\n' (u ++ (r ++ '\n' :: t)) u.length =
        some (u.length + r.length) := by
      rw [indexFrom?_append, indexOf?_append hr]
      rfl
    have hsplit : u ++ (r ++ '\n' :: t) = u ++ (r ++ ['\n']) ++ t := by simp
    have hlength : u.length + (r ++ ['\n']).length = (u ++ (r ++ ['\n'])).length :=
      List.length_append.symm
    have hstart : u.length + r.length + 1 = (u ++ (r ++ ['\n'])).length := by
      rw [← hlength, List.length_append, List.length_singleton, Nat.add_assoc]
    rw [startsFrom_of_some hfound, rows_append hr, offsets, hsplit, hlength, hstart, ih]

/-- The rows of a text start at its beginning and behind its line ends. -/
theorem startsFrom_zero (t : Text) :
  0 :: startsFrom t 0 = rowStarts t
  := startsFrom_append [] t

theorem length_offsets (n : Nat) (rs : List Text) :
  (offsets n rs).length = rs.length
  := by
  induction rs generalizing n with
  | nil => rfl
  | cons r rs ih => rw [offsets, List.length_cons, ih, List.length_cons]

end Text

namespace Buffer

open Program

/-- Halving the starts of the rows finds the row of a position. -/
theorem bisect_rowStarts (t : Text) (n : Nat) :
  bisect (Text.rowStarts t) n 0 (Text.rowStarts t).length = (t.take n).count '\n' + 1
  := by
  have hlength : (Text.rowStarts t).length = (Text.rows t).length := Text.length_offsets 0 _
  obtain ⟨⟨hrow, hstart⟩, hgreatest⟩ := Text.isGreatest_count_take t n
  apply bisect_eq
  · intro i hi
    rw [List.getD_eq_getElem?_getD, Text.getElem?_rowStarts (by omega), Option.getD_some]
    constructor
    · intro hle
      apply hgreatest ⟨by omega, hle⟩
    · intro hle
      apply Nat.le_trans (Text.length_rowsBefore_mono t hle) hstart
  · omega
  · omega
  · omega

/-- What a buffer is asked. -/
inductive Query where
  /-- The text. -/
  | text
  /-- The number of characters. -/
  | length
  /-- The character at a position. -/
  | char (i : Int)
  /-- The characters between two bounds. -/
  | slice (start : Int) (stop : Option Int)
  /-- The number of lines. -/
  | lineCount
  /-- The position at which a line starts. -/
  | lineStart (i : Int)
  /-- A line with its line end. -/
  | line (i : Int)
  /-- The line that holds a position. -/
  | lineAt (i : Int)
  /-- The lines. -/
  | lines

/-- What is answered to a query, if anything. -/
def Query.Answer : Query → Type
  | text | slice _ _ | line _ => Text
  | length | lineCount | lineStart _ | lineAt _ => Nat
  | char _ => Char
  | lines => List Text

/-- The answer of a buffer. -/
def answer (b : Buffer) : (q : Query) → Except BufferError q.Answer
  | .text => .ok b.text
  | .length => .ok b.length
  | .char i => b.char i
  | .slice start stop => .ok (b.slice start stop)
  | .lineCount => .ok b.lineCount
  | .lineStart i => b.lineStart i
  | .line i => b.line i
  | .lineAt i => b.lineAt i
  | .lines => .ok b.lines

/-- How a text is cut into chunks shows in no answer. -/
theorem answer_congr {b b' : Buffer} (h : b.text = b'.text) (q : Query) :
  b.answer q = b'.answer q
  := by
  have hlength : b.length = b'.length := congrArg List.length h
  have hlines : b.lines = b'.lines := congrArg Text.rows h
  have hcount : b.lineCount = b'.lineCount := congrArg List.length hlines
  have hchar (i : Int) : b.char i = b'.char i := by
    rw [char, char, hlength, h]
  have hslice (start : Int) (stop : Option Int) : b.slice start stop = b'.slice start stop := by
    rw [slice, slice, h]
  have hstart (i : Int) : b.lineStart i = b'.lineStart i := by
    rw [lineStart, lineStart, hcount, h]
  have hline (i : Int) : b.line i = b'.line i := by
    simp only [line, hstart, hcount, hslice]
  have hlineAt (i : Int) : b.lineAt i = b'.lineAt i := by
    rw [lineAt, lineAt, hlength, h]
  cases q with
  | text => apply congrArg Except.ok h
  | length => apply congrArg Except.ok hlength
  | char i => apply hchar
  | slice start stop => apply congrArg Except.ok (hslice start stop)
  | lineCount => apply congrArg Except.ok hcount
  | lineStart i => apply hstart
  | line i => apply hline
  | lineAt i => apply hlineAt
  | lines => apply congrArg Except.ok hlines

namespace Indexed

/-- The answer of a buffer with an index, which keeps what it finds for it. -/
def answer : (q : Query) → Program Indexed q.Answer
  | .text => readText
  | .length => do return (← get).size
  | .char i => char i
  | .slice start stop => slice start stop
  | .lineCount => lineCount
  | .lineStart i => lineStart i
  | .line i => line i
  | .lineAt i => lineAt i
  | .lines => lines

/-- What is kept is what the chunks say. -/
structure Current (x : Indexed) : Prop where
  /-- The chunks start where they are said to. -/
  chunkStarts : x.chunkStarts = startsOf x.chunks
  /-- The text is that of the chunks. -/
  joined : ∀ t, x.joined = some t → t = x.text
  /-- The lines are those of the text. -/
  lineStarts : ∀ s, x.lineStarts = some s → s = Text.rowStarts x.text

theorem current_ofChunks (cs : Snapshot) :
  (ofChunks cs).Current
  := ⟨rfl, nofun, nofun⟩

/-- The index counts the characters of the text. -/
theorem Current.size {x : Indexed} (hx : x.Current) :
  x.size = x.length
  := by
  rw [Indexed.size, hx.chunkStarts, getLastD_startsOf]
  rfl

/-- A program asks for something: it comes out if the chunks are those of the buffer and what is
kept is what they say, and so it stays. -/
def Reads {α : Type} (b : Buffer) (p : Program Indexed α) (r : Except BufferError α) : Prop :=
  ∀ x : Indexed, x.toBuffer = b → x.Current →
    outcome (p x) = r ∧ (left (p x)).toBuffer = b ∧ (left (p x)).Current

section Reading

variable {α γ : Type} {b : Buffer}

theorem Reads.result (a : α) :
  Reads b (pure a) (.ok a)
  := fun _ hb hx => ⟨rfl, hb, hx⟩

theorem Reads.failure (e : BufferError) :
  Reads (α := α) b (throw e) (.error e)
  := fun _ hb hx => ⟨rfl, hb, hx⟩

/-- What has been read can be used to read on. -/
theorem Reads.bind {p : Program Indexed α} {f : α → Program Indexed γ} {r : Except BufferError α}
    {g : α → Except BufferError γ} (hp : Reads b p r) (hf : ∀ a, r = .ok a → Reads b (f a) (g a)) :
  Reads b (p >>= f) (r >>= g)
  := by
  intro x hb hx
  obtain ⟨houtcome, hbuffer, hcurrent⟩ := hp x hb hx
  change outcome (EStateM.bind p f x) = _ ∧ (left (EStateM.bind p f x)).toBuffer = b ∧
    (left (EStateM.bind p f x)).Current
  rw [EStateM.bind]
  cases h : p x with
  | ok a x' =>
    rw [h] at houtcome hbuffer hcurrent
    obtain rfl : Except.ok a = r := houtcome
    apply hf a rfl x' hbuffer hcurrent
  | error e x' =>
    rw [h] at houtcome hbuffer hcurrent
    obtain rfl : Except.error e = r := houtcome
    exact ⟨rfl, hbuffer, hcurrent⟩

theorem Reads.bind_ok {p : Program Indexed α} {f : α → Program Indexed γ} {a : α}
    {r : Except BufferError γ} (hp : Reads b p (.ok a)) (hf : Reads b (f a) r) :
  Reads b (p >>= f) r
  := by
  apply hp.bind (g := fun _ => r)
  rintro _ ⟨⟩
  apply hf

/-- What is there can be looked at to read on. -/
theorem Reads.get {f : Indexed → Program Indexed γ} {r : Except BufferError γ}
    (hf : ∀ x : Indexed, x.toBuffer = b → x.Current → Reads b (f x) r) :
  Reads b (do f (← get)) r
  := fun x hb hx => hf x hb hx x hb hx

/-- What is read one by one is read at once. -/
theorem Reads.mapM {f : α → Program Indexed γ} {g : α → γ} {as : List α}
    (h : ∀ a ∈ as, Reads b (f a) (.ok (g a))) :
  Reads b (as.mapM f) (.ok (as.map g))
  := by
  induction as with
  | nil =>
    rw [List.mapM_nil]
    apply Reads.result
  | cons a as ih =>
    rw [List.mapM_cons]
    apply (h a List.mem_cons_self).bind_ok
    apply (ih fun a ha => h a (List.mem_cons_of_mem _ ha)).bind_ok
    apply Reads.result

variable (b)

theorem reads_readText :
  Reads b readText (.ok b.text)
  := by
  apply Reads.get
  intro x hb hx
  cases hjoined : x.joined with
  | some t =>
    rw [← hb, ← hx.joined t hjoined]
    apply Reads.result
  | none =>
    intro x' _ _
    refine ⟨?_, hb, hx.chunkStarts, ?_, hx.lineStarts⟩
    · rw [← hb]
      rfl
    · rintro t ⟨⟩
      rfl

theorem reads_readLineStarts :
  Reads b readLineStarts (.ok (Text.rowStarts b.text))
  := by
  apply Reads.get
  intro x hb hx
  cases hstarts : x.lineStarts with
  | some starts =>
    rw [← hb, ← hx.lineStarts starts hstarts]
    apply Reads.result
  | none =>
    apply (reads_readText b).bind_ok
    dsimp only
    rw [Text.startsFrom_zero]
    intro x hb hx
    refine ⟨rfl, hb, hx.chunkStarts, hx.joined, ?_⟩
    rintro starts ⟨⟩
    rw [← hb]
    rfl

theorem reads_char (i : Int) :
  Reads b (char i) (b.char i)
  := by
  apply (reads_readText b).bind_ok
  rw [Buffer.char, Buffer.length]
  cases (Text.place? b.text.length i).bind (b.text[·]?) with
  | some c => apply Reads.result
  | none => apply Reads.failure

theorem reads_slice (start : Int) (stop : Option Int) :
  Reads b (slice start stop) (.ok (b.slice start stop))
  := (reads_readText b).bind_ok (Reads.result _)

theorem length_rowStarts :
  (Text.rowStarts b.text).length = b.lineCount
  := Text.length_offsets 0 _

theorem reads_lineCount :
  Reads b lineCount (.ok b.lineCount)
  := by
  apply (reads_readLineStarts b).bind_ok
  rw [length_rowStarts]
  apply Reads.result

theorem reads_lineStart (i : Int) :
  Reads b (lineStart i) (b.lineStart i)
  := by
  apply (reads_readLineStarts b).bind_ok
  rw [length_rowStarts, Buffer.lineStart]
  cases (Text.place? b.lineCount i).bind ((Text.rowStarts b.text)[·]?) with
  | some n => apply Reads.result
  | none => apply Reads.failure

theorem reads_line (i : Int) :
  Reads b (line i) (b.line i)
  := by
  apply (reads_lineStart b i).bind
  rintro start -
  apply (reads_lineCount b).bind_ok
  by_cases hnext : i + 1 < b.lineCount
  · rw [if_pos hnext, if_pos hnext]
    apply (reads_lineStart b (i + 1)).bind
    rintro stop -
    apply reads_slice
  · rw [if_neg hnext, if_neg hnext]
    apply reads_slice

theorem reads_lineAt (i : Int) :
  Reads b (lineAt i) (b.lineAt i)
  := by
  apply Reads.get
  intro x hb hx
  have hsize : x.size = b.length := by rw [hx.size, hb]
  rw [hsize, Buffer.lineAt]
  split
  · apply (reads_readLineStarts b).bind_ok
    rw [bisect_rowStarts, Nat.add_sub_cancel]
    apply Reads.result
  · apply Reads.failure

/-- The lines looked up one by one are all lines. -/
theorem reads_lines :
  Reads b lines (.ok b.lines)
  := by
  have hlines : (List.range b.lineCount).map (fun i => b.lines.getD i []) = b.lines := by
    apply List.ext_getElem
    · rw [List.length_map, List.length_range, Buffer.lineCount]
    · intro i hi hi'
      simp [hi']
  apply (reads_lineCount b).bind_ok
  rw [← hlines]
  apply Reads.mapM
  intro i hi
  obtain ⟨l, hline, hl⟩ := line_eq_ok b (List.mem_range.mp hi)
  have hl : b.lines[i]? = some l := hl
  have hread := reads_line b i
  rw [hline] at hread
  rwa [List.getD_eq_getElem?_getD, hl]

/-- An index answers as the buffer does. -/
theorem reads_answer (q : Query) :
  Reads b (answer q) (b.answer q)
  := by
  cases q with
  | text => apply reads_readText
  | length =>
    apply Reads.get
    intro x hb hx
    rw [hx.size, hb]
    apply Reads.result
  | char i => apply reads_char
  | slice start stop => apply reads_slice
  | lineCount => apply reads_lineCount
  | lineStart i => apply reads_lineStart
  | line i => apply reads_line
  | lineAt i => apply reads_lineAt
  | lines => apply reads_lines

end Reading

end Indexed

end Buffer

end Tunescript
