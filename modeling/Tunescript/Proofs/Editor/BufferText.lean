import Tunescript.Editor.Buffer
import Tunescript.Proofs.Text.Rows

/-!
# The text of a buffer

An edit of the chunks is an edit of the text: putting a text in at a position splices it in
there (`insert_eq_ok`), and taking a range out leaves what stands before and behind it
(`remove_eq_ok`).  Within the text no query fails: the line of a position exists
(`lineAt_eq_ok`), and so do the start and the characters of every line (`lineStart_eq_ok`,
`line_eq_ok`).
-/

namespace Tunescript.Buffer

@[simp]
theorem flatten_cut (t : Text) :
  (cut t).flatten = t
  := by
  induction t using cut.induct with
  | case1 => simp [cut]
  | case2 t h ih => rw [cut, dif_neg h, List.flatten_cons, ih, List.take_append_drop]

@[simp]
theorem text_ofText (t : Text) :
  (ofText t).text = t
  := flatten_cut t

@[simp]
theorem lines_ofText (t : Text) :
  (ofText t).lines = Text.rows t
  := congrArg Text.rows (text_ofText t)

theorem flatten_insertInto (s : Text) (i : Nat) (cs : Snapshot) (hi : i ≤ cs.flatten.length) :
  (insertInto s i cs).flatten = cs.flatten.take i ++ s ++ cs.flatten.drop i
  := by
  induction i, cs using insertInto.induct with
  | case1 i => simp [insertInto]
  | case2 i c => simp [insertInto]
  | case3 i c d cs h =>
    have hi' := Nat.le_of_lt h
    simp [insertInto, h, List.take_append_of_le_length hi', List.drop_append_of_le_length hi']
  | case4 i c d cs h ih =>
    have hc := Nat.le_of_not_lt h
    rw [List.flatten_cons, List.length_append] at hi
    rw [insertInto, if_neg h, List.flatten_cons, ih (by omega), List.flatten_cons (l := c),
      List.take_append, List.drop_append, List.take_of_length_le hc, List.drop_of_length_le hc]
    simp only [List.append_assoc, List.nil_append]

theorem flatten_after (i : Nat) (cs : Snapshot) :
  (after i cs).1 ++ (after i cs).2.flatten = cs.flatten.drop i
  := by
  induction i, cs using after.induct with
  | case1 i => simp [after]
  | case2 i c cs h => simp [after, h, List.drop_append_of_le_length h]
  | case3 i c cs h ih =>
    rw [after, if_neg h, ih, List.flatten_cons, List.drop_append,
      List.drop_of_length_le (Nat.le_of_not_le h), List.nil_append]

theorem flatten_removeFrom (start stop : Nat) (cs : Snapshot) (h : start ≤ stop) :
  (removeFrom start stop cs).flatten = cs.flatten.take start ++ cs.flatten.drop stop
  := by
  induction start, stop, cs using removeFrom.induct with
  | case1 start stop => simp [removeFrom]
  | case2 start stop c cs hc tail rest hafter merged hmerged =>
    have hrest := flatten_after stop (c :: cs)
    rw [hafter] at hrest
    have hnil : c.take start ++ tail = [] := List.isEmpty_iff.mp hmerged
    rw [List.append_eq_nil_iff] at hnil
    rw [removeFrom, if_pos hc, hafter]
    simp only [List.flatten_cons, List.take_append_of_le_length (Nat.le_of_lt hc), hnil.1, hnil.2,
      List.isEmpty_nil, List.append_nil, if_true, List.nil_append] at hrest ⊢
    apply hrest
  | case3 start stop c cs hc tail rest hafter merged hmerged =>
    have hrest := flatten_after stop (c :: cs)
    rw [hafter] at hrest
    rw [List.flatten_cons] at hrest ⊢
    rw [removeFrom, if_pos hc, hafter, List.take_append_of_le_length (Nat.le_of_lt hc), ← hrest,
      ← List.append_assoc]
    apply congrArg List.flatten (if_neg hmerged)
  | case4 start stop c cs hc ih =>
    have hstart := Nat.le_of_not_lt hc
    rw [removeFrom, if_neg hc, List.flatten_cons, ih (by omega), List.flatten_cons,
      List.take_append, List.drop_append, List.take_of_length_le hstart,
      List.drop_of_length_le (Nat.le_trans hstart h), List.append_assoc, List.nil_append]

/-- Putting a text in at a position of the text splices it in there. -/
theorem insert_eq_ok (b : Buffer) {i : Nat} (hi : i ≤ b.length) (s : Text) :
  ∃ b', b.insert i s = .ok b' ∧ b'.text = b.text.take i ++ s ++ b.text.drop i
  := by
  have hi' : (0 : Int) ≤ i ∧ (i : Int) ≤ b.length := by omega
  rw [insert, if_pos hi']
  refine ⟨_, rfl, ?_⟩
  split
  · rename_i h
    rw [List.isEmpty_iff.mp h]
    simp
  · apply flatten_insertInto
    apply hi

/-- Taking a range of the text out leaves what stands before it and behind it. -/
theorem remove_eq_ok (b : Buffer) {start stop : Nat} (h : start ≤ stop) (hstop : stop ≤ b.length) :
  ∃ b', b.remove start stop = .ok b' ∧ b'.text = b.text.take start ++ b.text.drop stop
  := by
  have h' : (0 : Int) ≤ start ∧ (start : Int) ≤ stop ∧ (stop : Int) ≤ b.length := by omega
  rw [remove, if_pos h']
  refine ⟨_, rfl, ?_⟩
  split
  · rename_i he
    rw [Int.ofNat_inj.mp he, List.take_append_drop]
  · apply flatten_removeFrom
    apply h

theorem lineAt_eq_ok (b : Buffer) {i : Nat} (hi : i ≤ b.length) :
  b.lineAt i = .ok ((b.text.take i).count '\n')
  := by
  have hi' : (0 : Int) ≤ i ∧ (i : Int) ≤ b.length := by omega
  rw [lineAt, if_pos hi', Int.toNat_natCast]

theorem lt_lineCount_of_lineAt {b : Buffer} {i : Int} {n : Nat} (h : b.lineAt i = .ok n) :
  n < b.lineCount
  := by
  rw [lineAt] at h
  split at h
  · cases h
    apply Text.count_take_lt_length_rows
  · cases h

theorem lineStart_eq_ok (b : Buffer) {i : Nat} (hi : i < b.lineCount) :
  b.lineStart i = .ok (Text.rowsBefore b.text i).length
  := by
  simp only [lineStart, Text.place?_eq_some_of_lt hi, Option.bind_some,
    Text.getElem?_rowStarts hi]

theorem line_eq_ok (b : Buffer) {i : Nat} (hi : i < b.lineCount) :
  ∃ r, b.line i = .ok r ∧ (Text.rows b.text)[i]? = some r
  := by
  have hr := List.getElem?_eq_getElem hi
  refine ⟨_, ?_, hr⟩
  rw [line, lineStart_eq_ok b hi]
  by_cases hnext : i + 1 < b.lineCount
  · have hnext' : (i : Int) + 1 < b.lineCount := by omega
    have hstop := lineStart_eq_ok b hnext
    rw [Int.natCast_add, Int.natCast_one] at hstop
    simp only [bind, Except.bind, if_pos hnext', hstop]
    apply congrArg Except.ok (Text.slice_rowStarts hr)
  · have hnext' : ¬(i : Int) + 1 < b.lineCount := by omega
    simp only [bind, Except.bind, if_neg hnext']
    apply congrArg Except.ok (Text.slice_rowStarts_none hr _)
    apply Nat.le_antisymm hi (Nat.le_of_not_lt hnext)

end Tunescript.Buffer
