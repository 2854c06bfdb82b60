import Tunescript.Proofs.Layout.Sections
import Tunescript.Proofs.Text.Pieces
import Tunescript.Proofs.Text.RowStarts

/-!
# How a score is parted into lines and blocks

A text is split behind its line ends (`Text.SplitsInto`), and its lines are its pieces between the
line ends with these put back (`Text.withLineEnds_pieces`).  Lines are parted into blocks by the
checkpoint lines among them (`Layout.PartsFrom`).  The ranges of the blocks can be found by one pass
over the lines (`scan_eq_blocks`): each step of it closes a block in front of a checkpoint line,
which puts one range in front of those of the lines behind it (`PartsFrom.cons`).
-/

namespace Tunescript

namespace Text

/-- The text is split into these lines behind its line ends. -/
structure SplitsInto (t : Text) (ls : List Text) : Prop where
  /-- The lines one after the other are the text. -/
  flatten : ls.flatten = t
  /-- No line is empty. -/
  ne_nil : ∀ l ∈ ls, l ≠ []
  /-- A line end is only at the end of a line. -/
  not_mem_dropLast : ∀ l ∈ ls, '\n' ∉ l.dropLast
  /-- Every line but possibly the last ends with its line end. -/
  endsLine : ∀ l ∈ ls.dropLast, endsLine l

/-- The lines of a text are what it is split into. -/
theorem splitsInto_lines (t : Text) :
  SplitsInto t (lines t)
  where
  flatten := flatten_lines t
  ne_nil _ := (lines_lines t).ne_nil
  not_mem_dropLast _ := (lines_lines t).not_mem_dropLast
  endsLine _ := (lines_lines t).endsLine_of_mem_dropLast

/-- Pieces with line ends put behind all but the last, which is left out if it is empty. -/
def withLineEnds (ps : List Text) : List Text :=
  ps.dropLast.map (· ++ ['\n']) ++ ps.getLast?.toList.filter fun p => !p.isEmpty

/-- The pieces of a text between its line ends, with these put back, are its lines. -/
theorem withLineEnds_pieces (t : Text) :
  withLineEnds (pieces '\n' t) = lines t
  := by
  induction t using rows_induction with
  | single u hu =>
    rw [pieces_of_not_mem hu, lines, rows_of_not_mem hu]
    rfl
  | append u t hu ih =>
    obtain ⟨p, ps, h⟩ := List.exists_cons_of_ne_nil (pieces_ne_nil '\n' t)
    rw [pieces_append, pieces_of_not_mem hu, lines, rows_append hu,
      List.filter_cons_of_pos (by simp), ← lines, ← ih, h]
    rfl

end Text

namespace Layout

open Score

/-- A range of lines contains the line of a number. -/
def Contains (r : Nat × Nat) (i : Nat) : Prop := r.1 ≤ i ∧ i < r.2

instance (r : Nat × Nat) (i : Nat) : Decidable (Contains r i) :=
  inferInstanceAs (Decidable (r.1 ≤ i ∧ i < r.2))

variable {ls : List Text} {rs : List (Nat × Nat)} {n stop : Nat}

/-- The lines of a range are lines, and none of them is a checkpoint line. -/
def IsPlain (ls : List Text) (r : Nat × Nat) : Prop :=
  ∀ i, Contains r i → ∃ l, ls[i]? = some l ∧ isCheckpointLine l = false

/-- The ranges part the lines from the line `n` on into the blocks between the checkpoint lines. -/
structure PartsFrom (n : Nat) (ls : List Text) (rs : List (Nat × Nat)) : Prop where
  /-- No range is empty or has a line in front of the line `n`. -/
  nonempty : ∀ r ∈ rs, n ≤ r.1 ∧ r.1 < r.2
  /-- No checkpoint line is in a range. -/
  plain : ∀ r ∈ rs, IsPlain ls r
  /-- Every other line is in exactly one range. -/
  once : ∀ (i : Nat) l, n ≤ i → ls[i]? = some l → isCheckpointLine l = false →
    (rs.countP fun r => Contains r i) = 1
  /-- The ranges are in order, and there is a checkpoint line between them. -/
  separated : rs.Pairwise fun r r' => r.2 < r'.1 ∧
    ∃ (i : Nat) (l : Text), r.2 ≤ i ∧ i < r'.1 ∧ ls[i]? = some l ∧ isCheckpointLine l

/-- The range of a block, if it has lines. -/
def closeBlock (start stop : Nat) : List (Nat × Nat) :=
  if start < stop then [(start, stop)] else []

/-- The ranges that are found by a pass over lines: there is an open block from the line `start` on,
and the first of the lines has the number `index`. -/
def scan (start index : Nat) : List Text → List (Nat × Nat)
  | [] => closeBlock start index
  | line :: lines =>
    if isCheckpointLine line then closeBlock start index ++ scan (index + 1) (index + 1) lines
    else scan start (index + 1) lines

theorem isPlain_nil (ls : List Text) (n : Nat) :
  IsPlain ls (n, n)
  := by
  rintro i ⟨hi, hlt⟩
  exact absurd hlt (Nat.not_lt.mpr hi)

theorem mem_closeBlock {r : Nat × Nat} :
  r ∈ closeBlock n stop ↔ n < stop ∧ r = (n, stop)
  := by
  rw [closeBlock]
  split
  · rename_i h
    simp [h]
  · rename_i h
    simp [h]

theorem countP_closeBlock (i : Nat) :
  (closeBlock n stop).countP (fun r => Contains r i) = if Contains (n, stop) i then 1 else 0
  := by
  rw [closeBlock]
  split
  · rw [List.countP_singleton]
    simp only [decide_eq_true_iff]
  · rename_i h
    have hnot : ¬Contains (n, stop) i := fun hcontains =>
      h (Nat.lt_of_le_of_lt hcontains.1 hcontains.2)
    rw [if_neg hnot, List.countP_nil]

/-- Behind the last line there is nothing to part. -/
theorem partsFrom_nil (h : ls.length ≤ n) :
  PartsFrom n ls []
  where
  nonempty := by simp
  plain := by simp
  once := by
    intro i l hi hl
    have hlt := (List.getElem?_eq_some_iff.mp hl).1
    omega
  separated := List.Pairwise.nil

/-- A block that ends in front of a checkpoint line, or behind the last line, comes in front of the
blocks of the lines behind it. -/
theorem PartsFrom.cons (h : PartsFrom (stop + 1) ls rs) (hle : n ≤ stop)
    (hblock : IsPlain ls (n, stop)) (hstop : ∀ l, ls[stop]? = some l → isCheckpointLine l) :
  PartsFrom n ls (closeBlock n stop ++ rs)
  where
  nonempty := by
    intro r hr
    obtain hr | hr := List.mem_append.mp hr
    · obtain ⟨hlt, rfl⟩ := mem_closeBlock.mp hr
      exact ⟨le_rfl, hlt⟩
    · have hstart := h.nonempty r hr
      omega
  plain := by
    intro r hr
    obtain hr | hr := List.mem_append.mp hr
    · obtain ⟨-, rfl⟩ := mem_closeBlock.mp hr
      apply hblock
    · apply h.plain r hr
  once := by
    intro i l hi hl hplain
    rw [List.countP_append, countP_closeBlock]
    obtain hlt | rfl | hlt := Nat.lt_trichotomy i stop
    · -- The other blocks start behind the line.
      have hnone : (rs.countP fun r => Contains r i) = 0 := by
        apply List.countP_eq_zero.mpr
        intro r hr
        have hstart := h.nonempty r hr
        rw [decide_eq_true_iff]
        rintro ⟨hle, -⟩
        omega
      rw [if_pos ⟨hi, hlt⟩, hnone]
    · rw [hstop l hl] at hplain
      cases hplain
    · have hnot : ¬Contains (n, stop) i := fun hcontains => absurd hcontains.2 hlt.not_gt
      rw [if_neg hnot, h.once i l hlt hl hplain]
  separated := by
    apply List.pairwise_append.mpr
    refine ⟨?_, h.separated, ?_⟩
    · rw [closeBlock]
      split
      · apply List.pairwise_singleton
      · apply List.Pairwise.nil
    · intro r hr r' hr'
      obtain ⟨-, rfl⟩ := mem_closeBlock.mp hr
      obtain ⟨hstart, hlt⟩ := h.nonempty r' hr'
      obtain ⟨l, hl, -⟩ := h.plain r' hr' r'.1 ⟨le_rfl, hlt⟩
      have hlength := (List.getElem?_eq_some_iff.mp hl).1
      have hline := List.getElem?_eq_getElem (l := ls) (i := stop) (by omega)
      exact ⟨hstart, stop, _, le_rfl, hstart, hline, hstop _ hline⟩

/-- A pass over the last lines of a list, with a block open in front of them, parts what is behind
its start. -/
theorem partsFrom_scan {start index : Nat} {ms : List Text} (hms : ls.drop index = ms)
    (hle : start ≤ index) (hopen : IsPlain ls (start, index)) :
  PartsFrom start ls (scan start index ms)
  := by
  induction ms generalizing start index with
  | nil =>
    have hlength := List.drop_eq_nil_iff.mp hms
    rw [scan, ← List.append_nil (closeBlock start index)]
    apply (partsFrom_nil (Nat.le_succ_of_le hlength)).cons hle hopen
    intro l hl
    rw [List.getElem?_eq_none hlength] at hl
    cases hl
  | cons m ms ih =>
    have hm : ls[index]? = some m := by
      rw [← List.head?_drop, hms]
      rfl
    have hrest : ls.drop (index + 1) = ms := by
      rw [← List.drop_drop, hms]
      rfl
    rw [scan]
    split
    · rename_i hcheckpoint
      apply (ih hrest le_rfl (isPlain_nil ls _)).cons hle hopen
      intro l hl
      obtain rfl := Option.some.inj (hm.symm.trans hl)
      apply hcheckpoint
    · rename_i hplain
      apply ih hrest (Nat.le_succ_of_le hle)
      rintro i ⟨hi, hlt⟩
      obtain hlt | rfl := Nat.lt_succ_iff_lt_or_eq.mp hlt
      · apply hopen i ⟨hi, hlt⟩
      · exact ⟨m, hm, Bool.eq_false_iff.mpr hplain⟩

theorem ranges_cons (n : Nat) (s : Section) (ss : List Section) :
  ranges n (s :: ss) =
    closeBlock n (n + s.block.length) ++ ranges (n + s.block.length + s.closing.toList.length) ss
  := by
  rw [ranges, closeBlock]
  cases s.block <;> simp

/-- A pass over lines, with other lines open in front of them, finds the blocks of their
sections. -/
theorem scan_eq_ranges (ms : List Text) (hms : ∀ l ∈ ms, isCheckpointLine l = false) (n : Nat)
    (ls : List Text) :
  scan n (n + ms.length) ls = ranges n (sections (ms ++ ls))
  := by
  induction ls generalizing n ms with
  | nil =>
    rw [List.append_nil, sections_eq_singleton hms, ranges_cons, scan]
    exact (List.append_nil _).symm
  | cons l ls ih =>
    rw [scan]
    split
    · rename_i hcheckpoint
      rw [sections_append hms hcheckpoint, ranges_cons]
      apply congrArg (closeBlock n (n + ms.length) ++ ·)
      apply ih [] (List.forall_mem_nil _)
    · rename_i hplain
      have hopen : ∀ m ∈ ms ++ [l], isCheckpointLine m = false := by
        intro m hm
        obtain hm | hm := List.mem_append.mp hm
        · apply hms m hm
        · rw [List.mem_singleton.mp hm]
          apply Bool.eq_false_iff.mpr hplain
      have hrest := ih (ms ++ [l]) hopen n
      rw [List.length_append, List.append_assoc] at hrest
      apply hrest

/-- A pass over all lines finds the blocks. -/
theorem scan_eq_blocks (ls : List Text) :
  scan 0 0 ls = blocks ls
  := scan_eq_ranges [] (List.forall_mem_nil _) 0 ls

/-- The blocks part the lines. -/
theorem partsFrom_blocks (ls : List Text) :
  PartsFrom 0 ls (blocks ls)
  := by
  rw [← scan_eq_blocks]
  apply partsFrom_scan List.drop_zero le_rfl (isPlain_nil ls 0)

/-- A text is split into its lines behind its line ends, which are put back behind the pieces
between them; and lines are parted into blocks by the checkpoint lines among them, which a pass over
the lines finds. -/
theorem lines_and_blocks (t : Text) (ls : List Text) :
  (Text.SplitsInto t (Text.lines t) ∧ Text.withLineEnds (Text.pieces '\n' t) = Text.lines t) ∧
    PartsFrom 0 ls (blocks ls) ∧ scan 0 0 ls = blocks ls
  := by
  constructor
  · exact ⟨Text.splitsInto_lines t, Text.withLineEnds_pieces t⟩
  · exact ⟨partsFrom_blocks ls, scan_eq_blocks ls⟩

-- Neither two checkpoint lines one after the other nor one at an end leave an empty range.
example :
  blocks ["*".toList, "a".toList, "b".toList, "**".toList, " *".toList, [], "*".toList] =
    [(1, 3), (5, 6)]
  := by
  decide +kernel

end Layout

end Tunescript
