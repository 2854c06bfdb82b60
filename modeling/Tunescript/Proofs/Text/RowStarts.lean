import Mathlib.Data.List.Flatten
import Mathlib.Order.Bounds.Basic
import Tunescript.Proofs.Text.Lines

/-!
# Where rows start

Every row but the last ends with the only line end in it, and the last has none (`lineEnd_of_row`,
`not_mem_last_row`).  So there are as many line ends before a row as there are rows
(`count_rowsBefore`), and the row that is found by counting the line ends before a position is the
last one that starts at or before it (`isGreatest_count_take`).
-/

namespace Tunescript.Text

variable {t u r : Text} {i : Nat}

/-- A text is a single row, or a row with its line end in front of another text. -/
theorem rows_induction {P : Text → Prop} (single : ∀ u, '\n' ∉ u → P u)
    (append : ∀ u t, '\n' ∉ u → P t → P (u ++ '\n' :: t)) (t : Text) :
  P t
  := by
  -- What stands before `t` on its row is put in front of it.
  suffices h : ∀ u : Text, '\n' ∉ u → P (u ++ t) from h [] List.not_mem_nil
  induction t with
  | nil =>
    intro u hu
    rw [List.append_nil]
    apply single u hu
  | cons c t ih =>
    intro u hu
    by_cases hc : c = '\n'
    · rw [hc]
      apply append u t hu (ih [] List.not_mem_nil)
    · rw [List.append_cons]
      apply ih
      simp [hu, Ne.symm hc]

theorem rowsBefore_append_succ (hu : '\n' ∉ u) (t : Text) (i : Nat) :
  rowsBefore (u ++ '\n' :: t) (i + 1) = u ++ '\n' :: rowsBefore t i
  := by
  simp [rowsBefore, rows_append hu]

/-- Every row but the last ends with the only line end in it. -/
theorem lineEnd_of_row (h : (rows t)[i]? = some r) (hi : i + 1 < (rows t).length) :
  ∃ u, '\n' ∉ u ∧ r = u ++ ['\n']
  := by
  induction t using rows_induction generalizing i with
  | single u hu =>
    rw [rows_of_not_mem hu] at hi
    simp at hi
  | append u t hu ih =>
    rw [rows_append hu] at h hi
    cases i with
    | zero =>
      obtain rfl := Option.some_inj.mp h
      exact ⟨u, hu, rfl⟩
    | succ i => apply ih h (Nat.lt_of_succ_lt_succ hi)

/-- The last row has no line end. -/
theorem not_mem_last_row (h : (rows t)[i]? = some r) (hi : i + 1 = (rows t).length) :
  '\n' ∉ r
  := by
  induction t using rows_induction generalizing i with
  | single u hu =>
    rw [rows_of_not_mem hu] at h hi
    obtain rfl : i = 0 := Nat.succ_inj.mp hi
    obtain rfl := Option.some_inj.mp h
    apply hu
  | append u t hu ih =>
    rw [rows_append hu] at h hi
    cases i with
    | zero =>
      have hrows := List.length_pos_iff.mpr (rows_ne_nil t)
      rw [List.length_cons] at hi
      omega
    | succ i => apply ih h (Nat.succ_inj.mp hi)

/-- There are as many line ends before a row as there are rows. -/
theorem count_rowsBefore (hi : i < (rows t).length) :
  (rowsBefore t i).count '\n' = i
  := by
  induction t using rows_induction generalizing i with
  | single u hu =>
    rw [rows_of_not_mem hu] at hi
    obtain rfl : i = 0 := Nat.lt_one_iff.mp hi
    rfl
  | append u t hu ih =>
    cases i with
    | zero => rfl
    | succ i =>
      rw [rows_append hu] at hi
      rw [rowsBefore_append_succ hu, List.count_append, List.count_eq_zero.mpr hu,
        List.count_cons_self, ih (Nat.lt_of_succ_lt_succ hi), Nat.zero_add]

/-- As many line ends as rows stand before the start of a row. -/
theorem count_take_rowStart (hi : i < (rows t).length) :
  (t.take (rowsBefore t i).length).count '\n' = i
  := by
  rw [take_rowsBefore, count_rowsBefore hi]

theorem length_rowsBefore_mono (t : Text) {i k : Nat} (h : i ≤ k) :
  (rowsBefore t i).length ≤ (rowsBefore t k).length
  := by
  apply List.Sublist.length_le
  apply List.Sublist.flatten
  apply List.take_sublist_take_left h

/-- The row of a position is the last one that starts at or before it. -/
theorem isGreatest_count_take (t : Text) (n : Nat) :
  IsGreatest {i | i < (rows t).length ∧ (rowsBefore t i).length ≤ n} ((t.take n).count '\n')
  := by
  constructor
  · exact ⟨count_take_lt_length_rows t n, length_rowsBefore_le t n⟩
  · rintro i ⟨hi, hstart⟩
    rw [← count_take_rowStart hi]
    apply List.Sublist.count_le
    apply List.take_sublist_take_left hstart

end Tunescript.Text
