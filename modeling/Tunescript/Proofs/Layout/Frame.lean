import Mathlib.Order.Bounds.Basic
import Tunescript.Proofs.Layout.Blocks
import Tunescript.Proofs.Layout.Reformatted

/-!
# What formatting leaves alone

Formatting goes row by row, so that nothing moves from one line of a score to another.  Comments and
lines that cannot be read stay as they are, and whatever is drawn as a checkpoint line has the width
of the longest other line of the result, but at least the least one (`redrawn_of_formatIn`).  A line
of a block is written from its block alone (`getElem?_rows_of_formatIn`), so that a block comes out
the same in every score, but for its checkpoint lines (`getElem?_rows_of_same_block`).
-/

namespace Tunescript.Layout

open Score

section Widths

/-- The greatest of a number and the lengths of things, counted on from the number. -/
theorem isGreatest_foldl_max {β : Type} (length : β → Nat) (n : Nat) (bs : List β) :
  IsGreatest (insert n {k | ∃ b ∈ bs, length b = k}) (bs.foldl (fun n b => max n (length b)) n)
  := by
  induction bs generalizing n with
  | nil => simp [IsGreatest]
  | cons b bs ih =>
    obtain ⟨hmem, hle⟩ := ih (max n (length b))
    rw [List.foldl_cons]
    have hmax := hle (Set.mem_insert _ _)
    constructor
    · obtain hfirst | ⟨c, hc, hlength⟩ := hmem
      · rw [hfirst]
        obtain hn | hb := max_choice n (length b)
        · exact .inl hn
        · exact .inr ⟨b, List.mem_cons_self, hb.symm⟩
      · exact .inr ⟨c, List.mem_cons_of_mem _ hc, hlength⟩
    · rintro k (rfl | ⟨c, hc, rfl⟩)
      · exact (Nat.le_max_left _ _).trans hmax
      · obtain rfl | hc := List.mem_cons.mp hc
        · exact (Nat.le_max_right _ _).trans hmax
        · exact hle (.inr ⟨c, hc, rfl⟩)

/-- The lengths of the lines that are no checkpoint lines, without the blanks behind them. -/
def otherLengths (ls : List Text) : Set Nat :=
  {n | ∃ line ∈ ls, isCheckpointLine line = false ∧ (Text.trimEnd line).length = n}

/-- Checkpoint lines are as wide as the longest other line, but at least of the least width. -/
theorem isGreatest_checkpointWidth (ls : List Text) :
  IsGreatest (insert leastCheckpointWidth (otherLengths ls)) (checkpointWidth ls)
  := by
  have hother : otherLengths ls =
      {n | ∃ line ∈ ls.filter fun line => !isCheckpointLine line,
        (Text.trimEnd line).length = n} := by
    ext n
    simp [otherLengths, and_assoc]
  rw [hother]
  apply isGreatest_foldl_max

end Widths

/-- The line is a comment, or it cannot be read and is no checkpoint line. -/
def LeftAlone (line : Text) : Prop :=
  isCommentLine line ∨ isCheckpointLine line = false ∧ ∃ e, Score.read line = .error e

/-- A row of a score, and the row in its place when the checkpoint lines have the given width. -/
structure Redrawn (width : Nat) (line d : Text) : Prop where
  /-- Comments and what cannot be read stay as they are. -/
  leftAlone : LeftAlone line → d = line
  /-- What is a checkpoint line before or afterwards has the width of checkpoint lines. -/
  stars : isCheckpointLine line ∨ isCheckpointLine d →
    d = List.replicate width checkpointMark ++ lineEndOf line

theorem isCheckpointLine_of_isCommentLine {line : Text} (h : isCommentLine line) :
  isCheckpointLine line = false
  := by
  rw [isCommentLine, opensWith, beq_iff_eq] at h
  rw [isCheckpointLine, opensWith, h]
  rfl

/-- What is drawn in the place of a line is a line of stars if one of them is a checkpoint line. -/
theorem Drawn.eq_stars {width : Nat} {line d : Text} (h : Drawn width line d)
    (hcheckpoint : isCheckpointLine line ∨ isCheckpointLine d) :
  d = List.replicate width checkpointMark ++ lineEndOf line
  := by
  cases h with
  | same hnot =>
    rw [or_self, hnot] at hcheckpoint
    cases hcheckpoint
  | stars => rfl
  | @written w cs hcs hhead hw =>
    obtain ⟨c, hc, hverb⟩ : ∃ c, cs.head? = some c ∧ c.verb = .checkpoint := by
      obtain hline | hd := hcheckpoint
      · obtain ⟨c, ds, rfl, hverb⟩ := commands_of_isCheckpointLine hline hcs
        exact ⟨c, rfl, hverb⟩
      · exact (isCheckpointLine_written hw (lineEnd_lineEndOf line)).mp hd
    cases hhead c hc hverb

variable {α : Type} [Scalar α]

/-- Comments and lines that cannot be read are written as they are, whatever the layout. -/
theorem eq_of_formatLine [Memory] {layouts : List (List (Segment α))} {line f : Text}
    (hleft : LeftAlone line) (h : formatLine layouts line = .ok f) :
  f = line
  := by
  rw [formatLine] at h
  split at h
  · exact (Except.ok.inj h).symm
  · rename_i hcomment
    obtain hcomment' | ⟨-, e, hread⟩ := hleft
    · cases hcomment hcomment'
    · rw [hread] at h
      exact (Except.ok.inj h).symm

/-- An empty row stays empty. -/
theorem redrawn_nil (width : Nat) :
  Redrawn width [] []
  where
  leftAlone _ := rfl
  stars := by
    rintro (h | h) <;> cases h

/-- A formatted score has as many line ends as the score.  Comments, and lines that cannot be read
and are no checkpoint lines, stand unchanged in their rows.  Whatever was a checkpoint line, and
whatever has become one, consists of as many stars as the longest other line of the result is long,
but at least of the least width. -/
theorem redrawn_of_formatIn [Memory] {t t' : Text} (h : formatIn α t = .ok t') :
  t'.count '\n' = t.count '\n' ∧
    ∃ width, IsGreatest (insert leastCheckpointWidth (otherLengths (Text.rows t'))) width ∧
      List.Forall₂ (Redrawn width) (Text.rows t) (Text.rows t')
  := by
  obtain ⟨fs, hfs, rfl, hdrawn⟩ := formatIn_eq_ok h
  obtain ⟨rs, hrs, hrows, hrows'⟩ := rows_of_drawn (Text.lines_lines t) hdrawn
  rw [Text.flatten_lines] at hrows
  have hleft : List.Forall₂ (fun line f => LeftAlone line → f = line) (Text.lines t) fs :=
    forall₂_of_formatSections (fun _ _ _ _ hf hleft => eq_of_formatLine hleft hf)
      (fun _ _ _ => rfl) hfs
  have hlines : List.Forall₂ (Redrawn (checkpointWidth fs)) (Text.lines t)
      (drawCheckpoints fs) := by
    rw [drawCheckpoints, List.forall₂_map_right_iff] at hdrawn ⊢
    apply List.Forall₂.mp _ hleft hdrawn
    intro line f hleft hdrawn
    constructor
    · intro hline
      obtain rfl := hleft hline
      have hnot : isCheckpointLine f = false :=
        hline.elim isCheckpointLine_of_isCommentLine And.left
      exact drawLine_of_not_checkpoint hnot
    · exact hdrawn.eq_stars
  have hpairs : List.Forall₂ (Redrawn (checkpointWidth fs)) (Text.rows t)
      (Text.rows (drawCheckpoints fs).flatten) := by
    rw [hrows, hrows']
    apply List.rel_append hlines
    obtain rfl | rfl := hrs
    · exact .nil
    · exact .cons (redrawn_nil _) .nil
  refine ⟨?_, checkpointWidth fs, ?_, hpairs⟩
  · have hlength := hpairs.length_eq
    rw [Text.length_rows, Text.length_rows] at hlength
    exact (Nat.succ.inj hlength).symm
  · have hwidth : checkpointWidth (drawCheckpoints fs ++ rs) = checkpointWidth fs := by
      rw [← checkpointWidth_filter, List.filter_append]
      have hempty : rs.filter (fun l => !l.isEmpty) = [] := by
        obtain rfl | rfl := hrs <;> rfl
      rw [hempty, List.append_nil, checkpointWidth_filter, drawCheckpoints,
        checkpointWidth_map_drawLine (checkpointWidth_pos fs)]
    rw [hrows', ← hwidth]
    apply isGreatest_checkpointWidth

/-- A score with a remark, a line that cannot be read, a checkpoint line, and a line of two
checkpoints behind a dash. -/
def starredScore : Text := "~  a remark\n(Cn_4 1/4\n% sine  |\n***\n-*  *\n% square".toList

attribute [local instance] Memory.sixteenGigabytes in
/-- The remark and the line that cannot be read stay, and both lines of checkpoints get the least
width. -/
theorem redrawn_of_formatIn_starredScore :
  let stars := List.replicate 79 '*'
  let t' := "~  a remark\n(Cn_4 1/4\n% sine |\n".toList ++ stars ++ '\n' :: stars ++
    "\n% square".toList
  format starredScore = .ok t' ∧ t'.count '\n' = starredScore.count '\n' ∧
    ∃ width, IsGreatest (insert leastCheckpointWidth (otherLengths (Text.rows t'))) width ∧
      List.Forall₂ (Redrawn width) (Text.rows starredScore) (Text.rows t')
  := by
  intro stars t'
  have hformat : format starredScore = .ok t' := by decide +kernel
  exact ⟨hformat, redrawn_of_formatIn hformat⟩

section SameBlock

/-- A line of a block is written with the layouts of the block and stands in its row, drawn as stars
if it has become a checkpoint line. -/
theorem getElem?_rows_of_formatIn [Memory] {t t' : Text} (h : formatIn α t = .ok t')
    {first stop m : Nat} (hblock : (first, stop) ∈ blocks (Text.lines t)) (hfirst : first ≤ m)
    (hstop : m < stop) :
  ∃ width line f, 0 < width ∧ (Text.lines t)[m]? = some line ∧
    formatLine (layoutBlock (((Text.lines t).take stop).drop first) : List (List (Segment α)))
      line =
      .ok f ∧
    (Text.rows t')[m]? = some (drawLine width f)
  := by
  obtain ⟨fs, hfs, rfl, hdrawn⟩ := formatIn_eq_ok h
  obtain ⟨line, f, -, hline, hf, hformat⟩ := formatLine_of_mem_blocks hfs hblock hfirst hstop
  obtain ⟨rs, -, -, hrows⟩ := rows_of_drawn (Text.lines_lines t) hdrawn
  refine ⟨checkpointWidth fs, line, f, checkpointWidth_pos fs, hline, hformat, ?_⟩
  have hd : (drawCheckpoints fs)[m]? = some (drawLine (checkpointWidth fs) f) := by
    rw [drawCheckpoints, List.getElem?_map, hf, Option.map_some]
  rw [hrows, List.getElem?_append_left (List.getElem?_eq_some_iff.mp hd).1, hd]

/-- Two scores with the same lines as a block of each come out the same in the rows of the block,
but for the rows that are checkpoint lines in both. -/
theorem getElem?_rows_of_same_block [Memory] {t t' u u' : Text} (ht : formatIn α t = .ok t')
    (hu : formatIn α u = .ok u') {first stop first' stop' : Nat}
    (hblock : (first, stop) ∈ blocks (Text.lines t))
    (hblock' : (first', stop') ∈ blocks (Text.lines u))
    (hsame : ((Text.lines u).take stop').drop first' = ((Text.lines t).take stop).drop first)
    {i : Nat} (hi : first + i < stop) :
  ∃ d e, (Text.rows t')[first + i]? = some d ∧ (Text.rows u')[first' + i]? = some e ∧
    isCheckpointLine d = isCheckpointLine e ∧ (isCheckpointLine d = false → d = e)
  := by
  obtain ⟨width, line, f, hwidth, hline, hf, hrow⟩ :=
    getElem?_rows_of_formatIn ht hblock (Nat.le_add_right _ _) hi
  have hplace : (((Text.lines t).take stop).drop first)[i]? = some line := by
    rw [List.getElem?_drop, List.getElem?_take_of_lt hi, hline]
  have hi' : first' + i < stop' := by
    rw [← hsame] at hplace
    have hlt := (List.getElem?_eq_some_iff.mp hplace).1
    rw [List.length_drop, List.length_take] at hlt
    omega
  obtain ⟨width', line', f', hwidth', hline', hf', hrow'⟩ :=
    getElem?_rows_of_formatIn hu hblock' (Nat.le_add_right _ _) hi'
  have hplace' : (((Text.lines u).take stop').drop first')[i]? = some line' := by
    rw [List.getElem?_drop, List.getElem?_take_of_lt hi', hline']
  -- The line and the layouts of the block are the same, so the written line is.
  rw [hsame] at hf' hplace'
  obtain rfl : line = line' := Option.some.inj (hplace.symm.trans hplace')
  obtain rfl : f = f' := Except.ok.inj (hf.symm.trans hf')
  refine ⟨_, _, hrow, hrow', ?_, ?_⟩
  · rw [isCheckpointLine_drawLine hwidth, isCheckpointLine_drawLine hwidth']
  · intro hnot
    rw [isCheckpointLine_drawLine hwidth] at hnot
    rw [drawLine_of_not_checkpoint hnot, drawLine_of_not_checkpoint hnot]

/-- A voice, and a checkpoint behind a dash. -/
def voiceAndStar : Text := "% sine  |(Cn_4 1/4)(En_4 1/8)|\n-*\n".toList

/-- A score that ends with this block. -/
def closedByVoice : Text := "% square\n*\n".toList ++ voiceAndStar

/-- A score that starts with this block, and has a line longer than the least width of checkpoint
lines. -/
def openedByVoice : Text :=
  voiceAndStar ++
    ("*\n~ The voice above is played once, and then once more, and in the end a third time, " ++
    "if there is time.").toList

attribute [local instance] Memory.sixteenGigabytes in
/-- The voice comes out the same in both scores, and the checkpoint as stars of their widths. -/
theorem getElem?_rows_of_same_block_voiceAndStar :
  let voice := "% sine | (Cn_4 1/4)  (En_4 1/8)  |\n".toList
  ∃ t' u' d e, format closedByVoice = .ok t' ∧ format openedByVoice = .ok u' ∧
    (2, 4) ∈ blocks (Text.lines closedByVoice) ∧ (0, 2) ∈ blocks (Text.lines openedByVoice) ∧
    ((Text.lines openedByVoice).take 2).drop 0 = ((Text.lines closedByVoice).take 4).drop 2 ∧
    (Text.rows t')[2]? = some voice ∧ (Text.rows u')[0]? = some voice ∧
    (Text.rows t')[3]? = some d ∧ (Text.rows u')[1]? = some e ∧
    isCheckpointLine d = isCheckpointLine e
  := by
  intro voice
  have ht : format closedByVoice =
      .ok ("% square\n".toList ++ List.replicate 79 '*' ++ '\n' :: voice ++
        List.replicate 79 '*' ++ ['\n']) := by
    decide +kernel
  have hu : format openedByVoice =
      .ok (voice ++ List.replicate 100 '*' ++ '\n' :: List.replicate 100 '*' ++
        '\n' :: openedByVoice.drop 36) := by
    decide +kernel
  have hblock : (2, 4) ∈ blocks (Text.lines closedByVoice) := by decide +kernel
  have hblock' : (0, 2) ∈ blocks (Text.lines openedByVoice) := by decide +kernel
  have hsame : ((Text.lines openedByVoice).take 2).drop 0 =
      ((Text.lines closedByVoice).take 4).drop 2 := by
    decide +kernel
  obtain ⟨c, c', hc, hc', -, hvoice⟩ :=
    getElem?_rows_of_same_block ht hu hblock hblock' hsame (i := 0) (by decide)
  obtain ⟨d, e, hd, he, hstars, -⟩ :=
    getElem?_rows_of_same_block ht hu hblock hblock' hsame (i := 1) (by decide)
  obtain rfl : voice = c := by
    apply Option.some.inj (Eq.trans _ hc)
    decide +kernel
  obtain rfl := hvoice (by decide +kernel)
  exact ⟨_, _, d, e, ht, hu, hblock, hblock', hsame, hc, hc', hd, he, hstars⟩

end SameBlock

end Tunescript.Layout
