import Tunescript.Proofs.Text.Lines
import Tunescript.Proofs.Text.Trim

/-!
# The contents of the lines

Around every line there are the lines above it, each with a line end behind it, and the lines below
it, each with a line end in front of it (`exists_around`).  The rows of a text without their line
ends are then the lines above, the line and the lines below (`Around.contents_eq`).  A line end
behind a row makes an empty line there (`Around.openLine`).
-/

namespace Tunescript.Text

variable {t line : Text} {before after ls : List Text}

/-- Lines as they stand above another line. -/
def above (ls : List Text) : Text := ls.flatMap (· ++ ['\n'])

/-- Lines as they stand below another line. -/
def below (ls : List Text) : Text := ls.flatMap ('\n' :: ·)

/-- The rows of a text without their line ends. -/
def contents (t : Text) : List Text := (rows t).map withoutLineEnd

/-- The lines in which something is written, that is, those that are not blank. -/
def written (ls : List Text) : List Text := ls.filter fun l => !(trim l).isEmpty

@[simp]
theorem above_nil :
  above [] = []
  := rfl

@[simp]
theorem above_append (before after : List Text) :
  above (before ++ after) = above before ++ above after
  := List.flatMap_append

@[simp]
theorem above_cons (l : Text) (ls : List Text) :
  above (l :: ls) = l ++ '\n' :: above ls
  := by
  rw [above, List.flatMap_cons, List.append_assoc]
  rfl

@[simp]
theorem below_nil :
  below [] = []
  := rfl

@[simp]
theorem below_cons (l : Text) (ls : List Text) :
  below (l :: ls) = '\n' :: (l ++ below ls)
  := List.flatMap_cons

@[simp]
theorem written_append (before after : List Text) :
  written (before ++ after) = written before ++ written after
  := List.filter_append ..

/-- The text in front of a position: the lines above, and the start of the line. -/
theorem exists_above (t : Text) :
  ∃ ls l, t = above ls ++ l ∧ (∀ m ∈ ls, '\n' ∉ m) ∧ '\n' ∉ l
  := by
  induction t with
  | nil => exact ⟨[], [], rfl, List.forall_mem_nil _, List.not_mem_nil⟩
  | cons c t ih =>
    obtain ⟨ls, l, rfl, hls, hl⟩ := ih
    by_cases hc : c = '\n'
    · rw [hc]
      exact ⟨[] :: ls, l, by simp, List.forall_mem_cons.mpr ⟨List.not_mem_nil, hls⟩, hl⟩
    · have hcons {m : Text} (hm : '\n' ∉ m) : '\n' ∉ c :: m := by
        simp [hm, Ne.symm hc]
      cases ls with
      | nil => exact ⟨[], c :: l, rfl, hls, hcons hl⟩
      | cons m ls =>
        rw [List.forall_mem_cons] at hls
        exact ⟨(c :: m) :: ls, l, by simp, List.forall_mem_cons.mpr ⟨hcons hls.1, hls.2⟩, hl⟩

/-- The text behind a position: the rest of the line, and the lines below. -/
theorem exists_below (t : Text) :
  ∃ l ls, t = l ++ below ls ∧ '\n' ∉ l ∧ ∀ m ∈ ls, '\n' ∉ m
  := by
  induction t with
  | nil => exact ⟨[], [], rfl, List.not_mem_nil, List.forall_mem_nil _⟩
  | cons c t ih =>
    obtain ⟨l, ls, rfl, hl, hls⟩ := ih
    by_cases hc : c = '\n'
    · rw [hc]
      exact ⟨[], l :: ls, by simp, List.not_mem_nil, List.forall_mem_cons.mpr ⟨hl, hls⟩⟩
    · exact ⟨c :: l, ls, rfl, by simp [hl, Ne.symm hc], hls⟩

theorem count_above (h : ∀ l ∈ ls, '\n' ∉ l) :
  (above ls).count '\n' = ls.length
  := by
  induction ls with
  | nil => rfl
  | cons l ls ih =>
    rw [List.forall_mem_cons] at h
    rw [above_cons, List.count_append, List.count_eq_zero.mpr h.1, List.count_cons_self, ih h.2,
      List.length_cons, Nat.zero_add]

theorem rows_above (h : ∀ l ∈ before, '\n' ∉ l) (t : Text) :
  rows (above before ++ t) = before.map (· ++ ['\n']) ++ rows t
  := by
  induction before with
  | nil => rfl
  | cons l ls ih =>
    rw [List.forall_mem_cons] at h
    rw [above_cons, List.append_assoc, List.cons_append, rows_append h.1, ih h.2]
    rfl

/-- A line ends with a line end if there are lines below it. -/
theorem rows_line (hline : '\n' ∉ line) (after : List Text) :
  ∃ rs, rows (line ++ below after) = (line ++ (below after).take 1) :: rs
  := by
  cases after with
  | nil =>
    use []
    simp [rows_of_not_mem hline]
  | cons l ls =>
    use rows (l ++ below ls)
    rw [below_cons, rows_append hline]
    rfl

/-- A row ends with a line end exactly if there are lines below it. -/
theorem endsLine_row (hline : '\n' ∉ line) (after : List Text) :
  endsLine (line ++ (below after).take 1) = !after.isEmpty
  := by
  cases after with
  | nil =>
    rw [below_nil, List.take_nil, List.append_nil]
    apply Bool.eq_false_iff.mpr
    intro hends
    apply hline
    apply List.mem_of_getLast? (eq_of_beq hends)
  | cons l ls => simp [endsLine]

theorem withoutLineEnd_lineEnd (line : Text) :
  withoutLineEnd (line ++ ['\n']) = line
  := by
  simp [withoutLineEnd, endsLine]

theorem withoutLineEnd_row (hline : '\n' ∉ line) (after : List Text) :
  withoutLineEnd (line ++ (below after).take 1) = line
  := by
  cases after with
  | nil =>
    rw [withoutLineEnd, endsLine_row hline, if_neg (by simp)]
    apply List.append_nil
  | cons l ls => apply withoutLineEnd_lineEnd

theorem contents_line (hline : '\n' ∉ line) (hafter : ∀ l ∈ after, '\n' ∉ l) :
  contents (line ++ below after) = line :: after
  := by
  induction after generalizing line with
  | nil =>
    have hrow := withoutLineEnd_row hline []
    rw [below_nil, List.take_nil, List.append_nil] at hrow
    rw [below_nil, List.append_nil, contents, rows_of_not_mem hline, List.map_singleton, hrow]
  | cons l ls ih =>
    rw [List.forall_mem_cons] at hafter
    have hcontents := ih hafter.1 hafter.2
    rw [contents] at hcontents
    rw [contents, below_cons, rows_append hline, List.map_cons, hcontents, withoutLineEnd_lineEnd]

/-- Whether a row is blank does not depend on its line end. -/
theorem isEmpty_trim_row (line : Text) (after : List Text) :
  (trim (line ++ (below after).take 1)).isEmpty = (trim line).isEmpty
  := by
  have hend : ((below after).take 1).all isBlank := by
    cases after with
    | nil => rfl
    | cons l ls => rfl
  rw [isEmpty_trim, isEmpty_trim, List.all_append, hend, Bool.and_true]

/-- A text is a line with lines above it and lines below it. -/
structure Around (t : Text) (before : List Text) (line : Text) (after : List Text) : Prop where
  /-- The lines make the text. -/
  text : t = above before ++ (line ++ below after)
  /-- There are no line ends in the lines above. -/
  free_before : ∀ l ∈ before, '\n' ∉ l
  /-- There is none in the line. -/
  free_line : '\n' ∉ line
  /-- There are none in the lines below. -/
  free_after : ∀ l ∈ after, '\n' ∉ l

/-- Every position is in a line of the text, or at its end. -/
theorem exists_around {c : Nat} (hc : c ≤ t.length) :
  ∃ before line after column, t.Around before line after ∧ c = (above before).length + column ∧
    column ≤ line.length
  := by
  obtain ⟨before, front, hfront, hbefore, hfree⟩ := exists_above (t.take c)
  obtain ⟨rest, after, hrest, hfree', hafter⟩ := exists_below (t.drop c)
  use before, front ++ rest, after, front.length
  refine ⟨?_, ?_, ?_⟩
  · constructor
    · rw [List.append_assoc, ← hrest, ← List.append_assoc, ← hfront, List.take_append_drop]
    · apply hbefore
    · rw [List.mem_append, not_or]
      use hfree, hfree'
    · apply hafter
  · rw [← List.length_append, ← hfront, List.length_take, Nat.min_eq_left hc]
  · rw [List.length_append]
    apply Nat.le_add_right

namespace Around

variable (h : t.Around before line after)

include h

/-- The lines of the text are the lines above, the line and the lines below. -/
theorem contents_eq :
  contents t = before ++ line :: after
  := by
  have hline := contents_line h.free_line h.free_after
  rw [contents] at hline
  rw [h.text, contents, rows_above h.free_before, List.map_append, hline, List.map_map]
  congr 1
  apply List.map_id''
  apply withoutLineEnd_lineEnd

/-- The row of the line. -/
theorem getElem?_rows :
  (rows t)[before.length]? = some (line ++ (below after).take 1)
  := by
  obtain ⟨rs, hrs⟩ := rows_line h.free_line after
  rw [h.text, rows_above h.free_before, hrs, List.getElem?_append_right (by simp)]
  simp

theorem lt_length_rows :
  before.length < (rows t).length
  := by
  obtain ⟨hlt, -⟩ := List.getElem?_eq_some_iff.mp h.getElem?_rows
  apply hlt

theorem rowsBefore_eq :
  rowsBefore t before.length = above before
  := by
  rw [rowsBefore, h.text, rows_above h.free_before, List.take_left' (List.length_map _)]
  rfl

/-- In front of a position in the line there are as many line ends as there are lines above. -/
theorem count_take {column : Nat} (hcolumn : column ≤ line.length) :
  (t.take ((above before).length + column)).count '\n' = before.length
  := by
  have hstart : '\n' ∉ line.take column := by
    intro hmem
    apply h.free_line (List.mem_of_mem_take hmem)
  rw [h.text, List.take_length_add_append, List.take_append_of_le_length hcolumn, List.count_append,
    count_above h.free_before, List.count_eq_zero.mpr hstart, Nat.add_zero]

theorem length_le :
  (above before).length + line.length ≤ t.length
  := by
  rw [h.text, List.length_append, List.length_append]
  omega

/-- A line end behind the row of the line makes an empty line there. -/
theorem openLine {n : Nat}
    (hn : n = (above before).length + (line ++ (below after).take 1).length) :
  Around (t.take n ++ ['\n'] ++ t.drop n) (before ++ [line]) [] after
  := by
  have hrow : line ++ below after = line ++ (below after).take 1 ++ (below after).drop 1 := by
    rw [List.append_assoc, List.take_append_drop]
  constructor
  · rw [hn, h.text, hrow, List.take_length_add_append, List.drop_length_add_append, List.take_left,
      List.drop_left]
    cases after with
    | nil => simp
    | cons l ls => simp
  · intro l hl
    obtain hl | hl := List.mem_append.mp hl
    · apply h.free_before l hl
    · rw [List.mem_singleton.mp hl]
      apply h.free_line
  · apply List.not_mem_nil
  · apply h.free_after

/-- Without its characters the line is empty. -/
theorem clear :
  Around (t.take (above before).length ++ t.drop ((above before).length + line.length))
    before [] after
  := by
  constructor
  · rw [h.text, List.take_left, List.drop_length_add_append, List.drop_left, List.nil_append]
  · apply h.free_before
  · apply List.not_mem_nil
  · apply h.free_after

end Around

/-- A line above is a line with lines above and lines below. -/
theorem Around.up {l : Text} (h : t.Around (before ++ [l]) line after) :
  t.Around before l (line :: after)
  := by
  have hfree := h.free_before
  rw [List.forall_mem_append, List.forall_mem_singleton] at hfree
  constructor
  · rw [h.text]
    simp
  · apply hfree.1
  · apply hfree.2
  · rw [List.forall_mem_cons]
    use h.free_line, h.free_after

/-- What is written into an empty line is the line then. -/
theorem Around.write {u : Text} (h : t.Around before [] after) (hu : '\n' ∉ u) :
  Around (t.take (above before).length ++ u ++ t.drop (above before).length) before u after
  := by
  constructor
  · rw [h.text, List.take_left, List.drop_left, List.nil_append, List.append_assoc]
  · apply h.free_before
  · apply hu
  · apply h.free_after

end Tunescript.Text
