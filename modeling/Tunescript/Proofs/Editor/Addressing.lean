import Mathlib.Algebra.GroupWithZero.Nat
import Tunescript.Proofs.Editor.IndexedRuns

/-!
# Lines and positions of a buffer

The lines of a buffer make up its text, each starts behind the ones before it, and every position
lies in the last line that starts at or before it (`Addressed`).  This is so for every buffer, and
so for one that any run of calls has left, whose text is what the same calls make of a plain one;
and an index of the lines that is kept between the calls shows no others (`addressed_of_run`).
-/

namespace Tunescript.Buffer

open Program

/-- The lines of a buffer partition its text, and positions are found in them. -/
structure Addressed (b : Buffer) : Prop where
  /-- The lines one after the other are the text. -/
  text : b.lines.flatten = b.text
  /-- There is one line more than there are line ends. -/
  lineCount : b.lineCount = b.text.count '\n' + 1
  /-- Each line is the one of its number. -/
  line : ∀ i < b.lineCount, ∃ l, b.line i = .ok l ∧ b.lines[i]? = some l
  /-- Every line but the last ends with the only line end in it. -/
  ended : ∀ (i : Nat) l, b.lines[i]? = some l → i + 1 < b.lineCount →
    ∃ u, '\n' ∉ u ∧ l = u ++ ['\n']
  /-- The last line has no line end. -/
  last : ∀ l, b.lines.getLast? = some l → '\n' ∉ l
  /-- A line starts behind all lines before it. -/
  lineStart : ∀ i < b.lineCount, b.lineStart i = .ok ((b.lines.take i).map List.length).sum
  /-- The start of a line lies in that line. -/
  lineAt_lineStart : ∀ i < b.lineCount, ∃ n : Nat, b.lineStart i = .ok n ∧ b.lineAt n = .ok i
  /-- A position lies in the last line that starts at or before it. -/
  lineAt : ∀ c ≤ b.length, ∃ i, b.lineAt c = .ok i ∧
    IsGreatest {j : Nat | j < b.lineCount ∧ ∃ n ≤ c, b.lineStart j = .ok n} i
  /-- Exactly what is no position is refused. -/
  refused : ∀ c : Int, b.lineAt c = .error (.position c b.length) ↔ ¬(0 ≤ c ∧ c ≤ b.length)

variable (b : Buffer)

theorem lineStart_eq_sum {i : Nat} (hi : i < b.lineCount) :
  b.lineStart i = .ok ((b.lines.take i).map List.length).sum
  := by
  rw [lineStart_eq_ok b hi, Text.rowsBefore, List.length_flatten]
  rfl

theorem lineAt_lineStart {i : Nat} (hi : i < b.lineCount) :
  ∃ n : Nat, b.lineStart i = .ok n ∧ b.lineAt n = .ok i
  := by
  use (Text.rowsBefore b.text i).length, lineStart_eq_ok b hi
  rw [lineAt_eq_ok b (Text.length_rowsBefore_le_length b.text i), Text.count_take_rowStart hi]

theorem isGreatest_lineAt {c : Nat} (hc : c ≤ b.length) :
  ∃ i, b.lineAt c = .ok i ∧
    IsGreatest {j : Nat | j < b.lineCount ∧ ∃ n ≤ c, b.lineStart j = .ok n} i
  := by
  refine ⟨_, lineAt_eq_ok b hc, ?_⟩
  convert Text.isGreatest_count_take b.text c using 3 with j
  apply and_congr_right
  intro hj
  rw [lineStart_eq_ok b hj]
  simp

theorem lineAt_eq_error_iff (c : Int) :
  b.lineAt c = .error (.position c b.length) ↔ ¬(0 ≤ c ∧ c ≤ b.length)
  := by
  rw [lineAt]
  split
  · rename_i hc
    simp [hc]
  · rename_i hc
    simp [hc]

theorem not_mem_getLast? {l : Text} (h : b.lines.getLast? = some l) :
  '\n' ∉ l
  := by
  rw [List.getLast?_eq_getElem?] at h
  apply Text.not_mem_last_row h
  apply Nat.sub_add_cancel
  apply List.length_pos_iff.mpr (Text.rows_ne_nil b.text)

/-- The lines of every buffer partition its text. -/
theorem addressed :
  b.Addressed
  where
  text := Text.flatten_rows b.text
  lineCount := Text.length_rows b.text
  line _ hi := line_eq_ok b hi
  ended _ _ hl hi := Text.lineEnd_of_row hl hi
  last _ := not_mem_getLast? b
  lineStart _ := lineStart_eq_sum b
  lineAt_lineStart _ := lineAt_lineStart b
  lineAt _ := isGreatest_lineAt b
  refused := lineAt_eq_error_iff b

/-- After any run of calls the lines of the buffer partition its text, which is what the calls make
of a plain one.  If an index of the lines is kept from query to query, and dropped by the calls,
whatever is asked between them it gives the answers of the buffer. -/
theorem addressed_of_run (t : Text) (calls : List Call) :
  let b := (chunked.run calls ⟨ofText t, []⟩).current
  let t' := (plain.run calls ⟨t, []⟩).current
  b.text = t' ∧ b.length = t'.length ∧ b.Addressed ∧
    ∀ steps, Indexed.callsOf steps = calls → ∀ q,
      outcome (Indexed.answer q (Indexed.reached t steps).current) = b.answer q
  := by
  intro b t'
  have htext : b.text = t' := congrArg Held.current (map_text_run t calls)
  refine ⟨htext, congrArg List.length htext, b.addressed, ?_⟩
  rintro steps rfl q
  apply Indexed.answer_run

end Tunescript.Buffer
