import Tunescript.Proofs.Editor.LinearHistory
import Tunescript.Proofs.Text.RowStarts

/-!
# Moves between lines

The cursor is at a column of its line (`Session.At`).  A move to another line takes it to the same
column there, or to the last character if the line is too short for that (`meets_moveToLine`), and
so the moves up and down take it to the line above and to the line below.  The opposite move brings
it back unless one of the two lines is too short for the column (`moves_between_lines`).
-/

namespace Tunescript

namespace Text

variable {t r : Text} {i k n : Nat}

/-- A line end is only at the end of a row. -/
theorem not_mem_dropLast_row (h : r ∈ rows t) :
  '\n' ∉ r.dropLast
  := by
  cases r with
  | nil => apply List.not_mem_nil
  | cons c r => apply (lines_lines t).not_mem_dropLast (List.mem_filter.mpr ⟨h, rfl⟩)

/-- The position of a character of a row is in that row, and so is the start of an empty row. -/
theorem count_take_row (h : (rows t)[i]? = some r) (hk : k ≤ r.length - 1) :
  (t.take ((rowsBefore t i).length + k)).count '\n' = i
  := by
  have hi := (List.getElem?_eq_some_iff.mp h).1
  have hfree : '\n' ∉ r.take k := by
    intro hmem
    apply not_mem_dropLast_row (List.mem_of_getElem? h)
    rw [List.dropLast_eq_take]
    apply (List.take_sublist_take_left hk).subset hmem
  have hrest : ((rows t).drop i).flatten = r ++ ((rows t).drop (i + 1)).flatten := by
    obtain ⟨_, rfl⟩ := List.getElem?_eq_some_iff.mp h
    rw [List.drop_eq_getElem_cons hi, List.flatten_cons]
  have htake : t.take ((rowsBefore t i).length + k) = rowsBefore t i ++ r.take k := by
    conv_lhs => arg 2; rw [← rowsBefore_append t i]
    rw [List.take_length_add_append, hrest, List.take_append_of_le_length (by omega)]
  rw [htake, List.count_append, count_rowsBefore hi, List.count_eq_zero.mpr hfree, Nat.add_zero]

/-- A position in front of the end of a text is that of a character of its row. -/
theorem lt_length_row (hn : n < t.length) (h : (rows t)[(t.take n).count '\n']? = some r) :
  n < (rowsBefore t ((t.take n).count '\n')).length + r.length
  := by
  apply Nat.lt_of_not_le
  intro hle
  rw [← List.length_append, ← rowsBefore_succ h] at hle
  obtain hnext | hlast := Nat.lt_or_eq_of_le (Nat.succ_le_of_lt (count_take_lt_length_rows t n))
  · apply Nat.not_succ_le_self _ ((isGreatest_count_take t n).2 ⟨hnext, hle⟩)
  · rw [Nat.succ_eq_add_one] at hlast
    rw [hlast, rowsBefore_length_rows] at hle
    apply Nat.not_le_of_lt hn hle

end Text

namespace Session

variable {s : Session} {i k column : Nat}

/-- The cursor is at a column of a line. -/
structure At (s : Session) (i column : Nat) : Prop where
  /-- The line is that of the cursor. -/
  line : s.buffer.lineAt s.cursor = .ok i
  /-- The cursor is that many characters behind the start of the line. -/
  start : ∃ n, s.buffer.lineStart i = .ok n ∧ s.cursor = (n + column : Nat)

/-- From the session, the cursor goes to a column of a line, or to the last character if the line is
too short. -/
def Reaches (s : Session) (k column : Nat) (t : Session) : Prop :=
  ∃ row c, s.buffer.line k = .ok row ∧ t = { s with cursor := c } ∧
    t.At k (min column (row.length - 1))

/-- The gesture reaches a column of a line, and the other one takes the cursor back unless it was
behind all characters or the line is too short. -/
def Travels [Memory] (s : Session) (go back : Gesture) (k column : Nat) : Prop :=
  ∃ t, s.perform? (.gesture go) = some t ∧ s.Reaches k column t ∧
    (s.cursor < s.text.length → ∀ row, s.buffer.line k = .ok row → column < row.length →
      t.perform? (.gesture back) = some s)

/-- A cursor in the text is at a column of a line. -/
theorem exists_at (h : 0 ≤ s.cursor ∧ s.cursor ≤ s.text.length) :
  ∃ i column, s.At i column
  := by
  obtain ⟨c, hc⟩ := Int.eq_ofNat_of_zero_le h.1
  have hle : c ≤ s.text.length := by omega
  have hstart := Text.length_rowsBefore_le s.text c
  use (s.text.take c).count '\n', c - (Text.rowsBefore s.text ((s.text.take c).count '\n')).length
  constructor
  · rw [hc]
    apply s.buffer.lineAt_eq_ok hle
  · refine ⟨_, s.buffer.lineStart_eq_ok (Text.count_take_lt_length_rows s.text c), ?_⟩
    rw [hc]
    apply congrArg Int.ofNat (Nat.add_sub_cancel' hstart).symm

namespace At

variable (h : s.At i column)

include h

theorem lt_lineCount :
  i < s.buffer.lineCount
  := Buffer.lt_lineCount_of_lineAt h.line

/-- The column counts from the start of the row. -/
theorem exists_cursor :
  ∃ c : Nat, s.cursor = c ∧ c ≤ s.text.length ∧ i = (s.text.take c).count '\n' ∧
    c = (Text.rowsBefore s.text i).length + column
  := by
  obtain ⟨n, hn, hcursor⟩ := h.start
  have hline := h.line
  rw [Buffer.lineAt] at hline
  split at hline
  · rename_i hc
    rw [hcursor, Int.toNat_natCast] at hline
    have hi : i = (s.text.take (n + column)).count '\n' := (Except.ok.inj hline).symm
    have hn : n = (Text.rowsBefore s.text i).length := by
      apply Except.ok.inj (hn.symm.trans (s.buffer.lineStart_eq_ok h.lt_lineCount))
    refine ⟨n + column, hcursor, ?_, hi, by rw [hn]⟩
    apply Int.ofNat_le.mp
    rw [← hcursor]
    apply hc.2
  · cases hline

/-- At a column of a line there is one cursor. -/
theorem eq_of_at {c : Int} (h' : At { s with cursor := c } i column) :
  { s with cursor := c } = s
  := by
  obtain ⟨n, hn, hcursor⟩ := h.start
  obtain ⟨m, hm, hc⟩ := h'.start
  cases hn.symm.trans hm
  have hc : c = s.cursor := hc.trans hcursor.symm
  rw [hc]

/-- In front of the end of the text, the column is that of a character of the line. -/
theorem column_lt {line : Text} (hline : s.buffer.line i = .ok line)
    (hend : s.cursor < s.text.length) :
  column < line.length
  := by
  obtain ⟨c, hc, -, rfl, hcolumn⟩ := h.exists_cursor
  obtain ⟨row, hrow, hget⟩ := s.buffer.line_eq_ok (Text.count_take_lt_length_rows s.text c)
  cases hline.symm.trans hrow
  have hlt : c < s.text.length := by omega
  have hrowEnd := Text.lt_length_row hlt hget
  omega

end At

end Session

namespace Action

variable {s : Session} {i k column : Nat} {E : Session → Prop}

theorem meets_moveToLine (hs : s.At i column) (hk : k < s.buffer.lineCount) :
  Meets (moveToLine k) s E fun _ => s.Reaches k column
  := by
  obtain ⟨c, hc, hle, rfl, hcolumn⟩ := hs.exists_cursor
  obtain ⟨row, hrow, hget⟩ : ∃ row, s.buffer.line k = .ok row ∧ (Text.rows s.text)[k]? = some row :=
    s.buffer.line_eq_ok hk
  apply meets_bind
  apply meets_get
  apply meets_bind
  apply meets_currentLine hc hle
  apply meets_bind
  apply meets_lineStart (Text.count_take_lt_length_rows s.text c)
  apply meets_bind
  apply meets_bind
  apply meets_get
  apply meets_ofBuffer hrow
  apply meets_bind
  apply meets_lineStart hk
  apply meets_moveTo
  -- Also in an empty last line, the target is not behind the end of the text.
  have hend := Text.length_rowsBefore_add_le hget
  have htarget :
      (Text.rowsBefore s.text k).length + min column (row.length - 1) ≤ s.text.length := by
    omega
  have hline := Text.count_take_row hget (Nat.min_le_right column (row.length - 1))
  have hcursor :
      ((Text.rowsBefore s.text k).length : Int) +
        min (s.cursor - (Text.rowsBefore s.text ((s.text.take c).count '\n')).length)
          (row.length - 1 : Nat) =
      ((Text.rowsBefore s.text k).length + min column (row.length - 1) : Nat) := by omega
  rw [hcursor]
  refine ⟨row, _, hrow, rfl, ?_, ?_⟩
  · apply (s.buffer.lineAt_eq_ok htarget).trans (congrArg Except.ok hline)
  · exact ⟨_, s.buffer.lineStart_eq_ok hk, rfl⟩

theorem meets_moveDown (hs : s.At i column) (hnext : i + 1 < s.buffer.lineCount) :
  Meets moveDown s E fun _ => s.Reaches (i + 1) column
  := by
  obtain ⟨c, hc, hle, rfl, -⟩ := hs.exists_cursor
  apply meets_bind
  apply meets_currentLine hc hle
  apply meets_bind
  apply meets_get
  rw [if_pos hnext]
  apply meets_moveToLine hs hnext

theorem meets_moveUp (hs : s.At (i + 1) column) :
  Meets moveUp s E fun _ => s.Reaches i column
  := by
  obtain ⟨c, hc, hle, hline, -⟩ := hs.exists_cursor
  apply meets_bind
  apply meets_currentLine hc hle
  rw [← hline, if_pos (Nat.succ_pos i), Nat.add_sub_cancel]
  apply meets_moveToLine hs (Nat.lt_of_succ_lt hs.lt_lineCount)

end Action

namespace Session

variable {s : Session} {i k column : Nat}

/-- Two gestures that take the cursor from either line to the other travel there and back. -/
theorem travels_of_meets [Memory] {go back : Gesture} (hs : s.At i column)
    (hgo : (Operation.gesture go).action.Meets s (fun _ => False) fun _ => s.Reaches k column)
    (hback : ∀ c, At { s with cursor := c } k column →
      (Operation.gesture back).action.Meets { s with cursor := c } (fun _ => False) fun _ =>
        Reaches { s with cursor := c } i column) :
  s.Travels go back k column
  := by
  obtain ⟨t, ht, hreaches⟩ := exists_perform?_of_meets hgo
  use t, ht, hreaches
  intro hend row hrow hlong
  obtain ⟨row', c, hrow', rfl, hat⟩ := hreaches
  cases hrow.symm.trans hrow'
  rw [Nat.min_eq_left (Nat.le_sub_one_of_lt hlong)] at hat
  obtain ⟨u, hu, source, d, hsource, rfl, hreturn⟩ := exists_perform?_of_meets (hback c hat)
  rw [Nat.min_eq_left (Nat.le_sub_one_of_lt (hs.column_lt hsource hend))] at hreturn
  rw [hu, hs.eq_of_at hreturn]

/-- The moves down and up take a cursor in the text to the line below and to the line above, at its
column or at the last character if the line is too short, and the opposite move takes it back. -/
theorem moves_between_lines [Memory] (s : Session)
    (hcursor : 0 ≤ s.cursor ∧ s.cursor ≤ s.text.length) :
  ∃ i column, s.At i column ∧
    (i + 1 < s.buffer.lineCount → s.Travels .moveDown .moveUp (i + 1) column) ∧
    (0 < i → s.Travels .moveUp .moveDown (i - 1) column)
  := by
  obtain ⟨i, column, hs⟩ := exists_at hcursor
  use i, column, hs
  constructor
  · intro hnext
    apply travels_of_meets hs
    · apply Action.meets_moveDown hs hnext
    · intro c hat
      apply Action.meets_moveUp hat
  · intro hpos
    obtain ⟨i, rfl⟩ := Nat.exists_eq_add_one.mpr hpos
    apply travels_of_meets hs
    · apply Action.meets_moveUp hs
    · intro c hat
      apply Action.meets_moveDown hat hs.lt_lineCount

/-- A session at the second character of a line between two others. -/
def middleLine : Session :=
    { blank with buffer := Buffer.ofText "cde\nfg\nabc".toList, cursor := 5 }

attribute [local instance] Memory.sixteenGigabytes in
/-- From there, both other lines have a character at the column. -/
theorem moves_from_middleLine :
  (0 ≤ middleLine.cursor ∧ middleLine.cursor ≤ middleLine.text.length) ∧ middleLine.At 1 1 ∧
    middleLine.Travels .moveDown .moveUp 2 1 ∧ middleLine.Travels .moveUp .moveDown 0 1
  := by
  have hcursor : 0 ≤ middleLine.cursor ∧ middleLine.cursor ≤ middleLine.text.length := by
    decide +kernel
  obtain ⟨i, column, hat, hdown, hup⟩ := moves_between_lines middleLine hcursor
  have hline : middleLine.buffer.lineAt middleLine.cursor = .ok 1 := by
    decide +kernel
  cases hat.line.symm.trans hline
  obtain ⟨n, hn, hcolumn⟩ := hat.start
  have hstart : middleLine.buffer.lineStart 1 = .ok 4 := by
    decide +kernel
  cases hn.symm.trans hstart
  obtain rfl : column = 1 := by
    rw [show middleLine.cursor = 5 from rfl] at hcolumn
    omega
  exact ⟨hcursor, hat, hdown (by decide +kernel), hup (by decide)⟩

end Session

end Tunescript
