import Mathlib.Tactic.Common
import Tunescript.Proofs.Text.Rows

/-!
# The lines of a text

Every line but the last ends with the one line end in it, and the last is not empty (`Lines`).  The
lines of a text are so (`lines_lines`), and texts that are so are the lines of the text they make
(`lines_flatten`).
-/

namespace Tunescript.Text

/-- The texts are the lines of a text. -/
inductive Lines : List Text → Prop
  /-- There are no lines. -/
  | nil : Lines []
  /-- The last line has no line end. -/
  | last {l : Text} (hne : l ≠ []) (hl : '\n' ∉ l) : Lines [l]
  /-- A line with a line end, and the other lines. -/
  | cons {u : Text} {ls : List Text} (hu : '\n' ∉ u) (h : Lines ls) : Lines ((u ++ ['\n']) :: ls)

theorem Lines.tail {l : Text} {ls : List Text} (h : Lines (l :: ls)) :
  Lines ls
  := by
  cases h with
  | last => apply Lines.nil
  | cons hu h => apply h

/-- A line ends with its line end unless it is the last. -/
theorem Lines.endsLine_or {l : Text} {ls : List Text} (h : Lines (l :: ls)) :
  endsLine l ∨ ls = []
  := by
  cases h with
  | last => apply Or.inr rfl
  | cons hu h =>
    apply Or.inl
    simp [endsLine]

theorem Lines.ne_nil {ls : List Text} (h : Lines ls) {l : Text} (hl : l ∈ ls) :
  l ≠ []
  := by
  induction h with
  | nil => cases hl
  | last hne =>
    rw [List.mem_singleton.mp hl]
    apply hne
  | cons hu h ih =>
    obtain rfl | hl := List.mem_cons.mp hl
    · simp
    · apply ih hl

/-- A line end is only at the end of a line. -/
theorem Lines.not_mem_dropLast {ls : List Text} (h : Lines ls) {l : Text} (hl : l ∈ ls) :
  '\n' ∉ l.dropLast
  := by
  induction h with
  | nil => cases hl
  | last hne hnot =>
    rw [List.mem_singleton.mp hl]
    intro hmem
    apply hnot ((List.dropLast_sublist _).subset hmem)
  | cons hu h ih =>
    obtain rfl | hl := List.mem_cons.mp hl
    · rw [List.dropLast_concat]
      apply hu
    · apply ih hl

/-- Every line but possibly the last ends with its line end. -/
theorem Lines.endsLine_of_mem_dropLast {ls : List Text} (h : Lines ls) {l : Text}
    (hl : l ∈ ls.dropLast) :
  endsLine l
  := by
  induction h with
  | nil => cases hl
  | last => cases hl
  | @cons u ls hu h ih =>
    obtain _ | ⟨m, ls⟩ := ls
    · cases hl
    · rw [List.dropLast_cons_cons] at hl
      obtain rfl | hl := List.mem_cons.mp hl
      · simp [endsLine]
      · apply ih hl

theorem rows_eq_nil_cons {t : Text} {rs : List Text} (h : rows t = [] :: rs) :
  t = [] ∧ rs = []
  := by
  obtain _ | ⟨c, t⟩ := t
  · obtain ⟨⟩ := h
    exact ⟨rfl, rfl⟩
  · by_cases hc : c = '\n'
    · rw [hc, rows_lineEnd] at h
      cases h
    · obtain ⟨r, rs', -, hrows⟩ := rows_cons hc t
      rw [hrows] at h
      cases h

theorem lines_lineEnd (t : Text) :
  lines ('\n' :: t) = ['\n'] :: lines t
  := by
  rw [lines, rows_lineEnd]
  rfl

/-- A character in front of a text goes in front of its first line. -/
theorem lines_cons {c : Char} (hc : c ≠ '\n') (t : Text) :
  (t = [] ∧ lines (c :: t) = [[c]]) ∨ ∃ l ls, lines t = l :: ls ∧ lines (c :: t) = (c :: l) :: ls
  := by
  obtain ⟨r, rs, hrows, hcons⟩ := rows_cons hc t
  rw [lines, lines, hrows, hcons]
  obtain _ | ⟨d, r⟩ := r
  · obtain ⟨rfl, rfl⟩ := rows_eq_nil_cons hrows
    exact .inl ⟨rfl, rfl⟩
  · exact .inr ⟨d :: r, _, rfl, rfl⟩

theorem Lines.cons_char {c : Char} (hc : c ≠ '\n') {l : Text} {ls : List Text}
    (h : Lines (l :: ls)) :
  Lines ((c :: l) :: ls)
  := by
  have hnot {t : Text} (ht : '\n' ∉ t) : '\n' ∉ c :: t := by
    intro hmem
    obtain h | h := List.mem_cons.mp hmem
    · apply hc h.symm
    · apply ht h
  cases h with
  | last hne hl => apply Lines.last (List.cons_ne_nil c l) (hnot hl)
  | cons hu h => apply Lines.cons (hnot hu) h

/-- The lines of a text are lines. -/
theorem lines_lines (t : Text) :
  Lines (lines t)
  := by
  induction t with
  | nil => apply Lines.nil
  | cons c t ih =>
    by_cases hc : c = '\n'
    · rw [hc, lines_lineEnd]
      apply Lines.cons (u := []) List.not_mem_nil ih
    · obtain ⟨-, h⟩ | ⟨l, ls, hl, h⟩ := lines_cons hc t
      · rw [h]
        apply Lines.last (List.cons_ne_nil c [])
        intro hmem
        apply hc (List.mem_singleton.mp hmem).symm
      · rw [h]
        rw [hl] at ih
        apply ih.cons_char hc

theorem rows_append {u : Text} (hu : '\n' ∉ u) (t : Text) :
  rows (u ++ '\n' :: t) = (u ++ ['\n']) :: rows t
  := by
  induction u with
  | nil => apply rows_lineEnd
  | cons c u ih =>
    rw [List.mem_cons, not_or] at hu
    have hrows := ih hu.2
    obtain ⟨r, rs, h, hcons⟩ := rows_cons (Ne.symm hu.1) (u ++ '\n' :: t)
    rw [hrows] at h
    obtain ⟨⟩ := h
    apply hcons

theorem rows_of_not_mem {u : Text} (hu : '\n' ∉ u) :
  rows u = [u]
  := by
  induction u with
  | nil => rfl
  | cons c u ih =>
    rw [List.mem_cons, not_or] at hu
    have hrows := ih hu.2
    obtain ⟨r, rs, h, hcons⟩ := rows_cons (Ne.symm hu.1) u
    rw [hrows] at h
    obtain ⟨⟩ := h
    apply hcons

/-- Lines are those of the text that they make. -/
theorem lines_flatten {ls : List Text} (h : Lines ls) :
  lines ls.flatten = ls
  := by
  induction h with
  | nil => rfl
  | last hne hl =>
    rw [List.flatten_singleton, lines, rows_of_not_mem hl]
    simp [hne]
  | cons hu h ih =>
    rw [lines] at ih
    rw [List.flatten_cons, List.append_assoc, List.singleton_append, lines, rows_append hu,
      List.filter_cons_of_pos (by simp), ih]

end Tunescript.Text
