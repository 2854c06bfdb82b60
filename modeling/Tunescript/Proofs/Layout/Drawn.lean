import Tunescript.Proofs.Layout.LineReading
import Tunescript.Proofs.Layout.Sections
import Tunescript.Proofs.Text.Lines

/-!
# The lines of a formatted score

Every line of a formatted score is a line of the score that was kept, a line of stars, or a line
that was written from commands (`Drawn`).  Together these lines are the formatted score
(`formatIn_eq_ok`).
-/

namespace Tunescript

open Text (endsLine)

namespace Score

theorem exists_skip_of_opensWith {mark : Char} (hmark : isFiller mark = false) {line : Text}
    (h : opensWith mark line) :
  ∃ c r, skip line = c :: r ∧ (c = mark ∨ Text.isBlank c)
  := by
  induction line with
  | nil => cases h
  | cons c line ih =>
    cases hfiller : isFiller c with
    | true =>
      rw [skip_cons_of_filler hfiller]
      apply ih
      rw [opensWith, Text.trimStart, List.dropWhile_cons] at h
      split at h
      · apply h
      · rename_i hblank
        rw [List.head?_cons, beq_iff_eq, Option.some_inj] at h
        rw [h, hmark] at hfiller
        cases hfiller
    | false =>
      use c, line, skip_cons_of_not_filler hfiller line
      rw [opensWith, Text.trimStart, List.dropWhile_cons] at h
      split at h
      · rename_i hblank
        apply Or.inr hblank
      · rw [List.head?_cons, beq_iff_eq, Option.some_inj] at h
        apply Or.inl h

/-- No command starts with a blank that is no filler. -/
theorem not_blank_of_commands {c : Char} {r t : Text} (h : skip t = c :: r) {cs : List Command}
    (hcs : commands t = .ok cs) :
  Text.isBlank c = false
  := by
  obtain ⟨hnil, -⟩ | ⟨d, r, ds, hcommand, -, -⟩ := commands_eq_ok hcs
  · rw [hnil] at h
    cases h
  · obtain ⟨o, u, hskip, ho⟩ := opening_of_command hcommand
    have hopening : "~[*%|;(".toList.all (Text.isBlank · == false) := by decide
    rw [hskip, List.cons_eq_cons] at h
    rw [← h.1]
    apply eq_of_beq (List.all_eq_true.mp hopening o ho)

/-- A line that opens with a mark and can be read starts with the mark behind filler. -/
theorem skip_of_opensWith {mark : Char} (hmark : isFiller mark = false) {line : Text}
    (h : opensWith mark line) {cs : List Command} (hcs : commands line = .ok cs) :
  ∃ r, skip line = mark :: r
  := by
  obtain ⟨c, r, hskip, rfl | hblank⟩ := exists_skip_of_opensWith hmark h
  · exact ⟨r, hskip⟩
  · rw [not_blank_of_commands hskip hcs] at hblank
    cases hblank

/-- A checkpoint line that can be read starts with a checkpoint. -/
theorem commands_of_isCheckpointLine {line : Text} (h : isCheckpointLine line) {cs : List Command}
    (hcs : commands line = .ok cs) :
  ∃ c ds, cs = c :: ds ∧ c.verb = .checkpoint
  := by
  obtain ⟨r, hr⟩ := skip_of_opensWith rfl h hcs
  have hcommand : command line = .ok (checkpoint r) := by
    rw [command, hr]
    rfl
  rw [commands_of_ok hcommand] at hcs
  obtain ⟨ds, -, rfl⟩ := map_eq_ok hcs
  exact ⟨_, ds, rfl, rfl⟩

/-- A comment line that can be read is a comment. -/
theorem commands_of_isCommentLine {line : Text} (h : isCommentLine line) (hline : IsLine line)
    {cs : List Command} (hcs : commands line = .ok cs) :
  ∃ noun, cs = [⟨.comment, noun⟩]
  := by
  obtain ⟨r, hr⟩ := skip_of_opensWith rfl h hcs
  have hsuffix : r <:+ line := (List.suffix_cons '~' r).trans (hr ▸ skip_suffix line)
  have hcommand : command line = .ok (⟨.comment, Text.trim (restOfLine r).1⟩, []) := by
    rw [command, hr]
    rw [← restOfLine_of_isLine (hline.of_suffix hsuffix)]
    rfl
  rw [commands_of_ok hcommand, commands_nil rfl] at hcs
  cases hcs
  exact ⟨_, rfl⟩

end Score

namespace Layout

open Score

/-- The line end that a line has. -/
def lineEndOf (line : Text) : Text := if endsLine line then ['\n'] else []

/-- A line of a score, and what stands in its place in the formatted score. -/
inductive Drawn (width : Nat) : Text → Text → Prop
  /-- A comment, or a line that cannot be read. -/
  | same {line : Text} (hcheckpoint : isCheckpointLine line = false)
    (h : isCommentLine line ∨ ∃ o, commands line = .error o) : Drawn width line line
  /-- A checkpoint line, or a line that starts with a checkpoint behind filler. -/
  | stars {line : Text} (h : isCheckpointLine line ∨
    ∃ c cs, commands line = .ok (c :: cs) ∧ c.verb = .checkpoint) :
    Drawn width line (List.replicate width '*' ++ lineEndOf line)
  /-- A line that starts with another command, or with none. -/
  | written {line w : Text} {cs : List Command} (hcs : commands line = .ok cs)
    (hhead : ∀ c, cs.head? = some c → c.verb ≠ .checkpoint) (h : Written cs w) :
    Drawn width line (w ++ lineEndOf line)

theorem lineEnd_lineEndOf (line : Text) :
  LineEnd (lineEndOf line)
  := by
  rw [lineEndOf]
  split
  · apply Or.inr rfl
  · apply Or.inl rfl

variable {cs : List Command} {w : Text}

/-- A written line opens with the mark of its first command. -/
theorem opensWith_written (h : Written cs w) {e : Text} (he : LineEnd e) {x : Char} :
  opensWith x (w ++ e) ↔ ∃ c, cs.head? = some c ∧ mark c.verb = x
  := by
  cases h with
  | nil =>
    constructor
    · intro h
      obtain rfl | rfl := he
      · cases h
      · cases h
    · rintro ⟨c, hc, -⟩
      cases hc
  | @cons c cs gap w hgap hstar hlast h =>
    obtain ⟨t, ht⟩ := core_eq_cons c
    have hblank : Text.isBlank (mark c.verb) = false := by
      cases c.verb <;> rfl
    rw [ht, opensWith, List.cons_append, List.cons_append, Text.trimStart,
      List.dropWhile_cons_of_neg (Bool.eq_false_iff.mp hblank), List.head?_cons, beq_iff_eq,
      Option.some_inj]
    constructor
    · intro hmark
      exact ⟨c, rfl, hmark⟩
    · rintro ⟨d, hd, hmark⟩
      cases hd
      apply hmark

theorem mark_eq_star {verb : Verb} :
  mark verb = '*' ↔ verb = .checkpoint
  := by
  cases verb <;> simp [mark]

theorem mark_eq_tilde {verb : Verb} :
  mark verb = '~' ↔ verb = .comment
  := by
  cases verb <;> simp [mark]

/-- A written line is a checkpoint line if its first command is a checkpoint. -/
theorem isCheckpointLine_written (h : Written cs w) {e : Text} (he : LineEnd e) :
  isCheckpointLine (w ++ e) ↔ ∃ c, cs.head? = some c ∧ c.verb = .checkpoint
  := by
  simp only [isCheckpointLine, checkpointMark, opensWith_written h he, mark_eq_star]

/-- A written line is a comment line if its first command is a comment. -/
theorem isCommentLine_written (h : Written cs w) {e : Text} (he : LineEnd e) :
  isCommentLine (w ++ e) ↔ ∃ c, cs.head? = some c ∧ c.verb = .comment
  := by
  simp only [isCommentLine, commentMark, opensWith_written h he, mark_eq_tilde]

/-- No line end stands in a line of stars. -/
theorem newline_not_mem_stars (n : Nat) :
  '\n' ∉ List.replicate n '*'
  := by
  intro hmem
  cases List.eq_of_mem_replicate hmem

theorem endsLine_append_lineEndOf (hw : '\n' ∉ w) (line : Text) :
  endsLine (w ++ lineEndOf line) = endsLine line
  := by
  rw [lineEndOf]
  split
  · rename_i h
    rw [h]
    apply Text.endsLine_append rfl
  · rename_i h
    rw [List.append_nil, Bool.not_eq_true _ |>.mp h]
    apply Bool.eq_false_iff.mpr
    intro h
    apply hw (Text.mem_of_endsLine h)

variable {α : Type} [Scalar α]

/-- A formatted line is the line itself, or it is written from the commands of the line. -/
theorem formatLine_eq_ok [Memory] {layouts : List (List (Segment α))} {line f : Text}
    (h : formatLine layouts line = .ok f) :
  (f = line ∧ (isCommentLine line ∨ ∃ o, commands line = .error o)) ∨
    ∃ cs w, commands line = .ok cs ∧ renderLine cs layouts = .ok w ∧ f = w ++ lineEndOf line
  := by
  rw [formatLine] at h
  split at h
  · rename_i hcomment
    cases h
    apply Or.inl ⟨rfl, .inl hcomment⟩
  · split at h
    · rename_i e hread
      cases h
      obtain ⟨o, ho, -⟩ := read_eq_error hread
      apply Or.inl ⟨rfl, .inr ⟨o, ho⟩⟩
    · rename_i cs hread
      obtain ⟨w, hw, h⟩ := bind_eq_ok h
      apply Or.inr
      use cs, w, read_eq_ok.mp hread, hw
      cases h
      rw [lineEndOf]
      split
      · rfl
      · rw [List.append_nil]

/-- A line that is no checkpoint line is drawn as it is formatted, unless that makes it one. -/
theorem drawn_of_formatLine [Memory] {width : Nat} {layouts : List (List (Segment α))}
    {line f : Text} (hline : isCheckpointLine line = false) (hone : IsLine line)
    (h : formatLine layouts line = .ok f) :
  Drawn width line (drawLine width f)
  := by
  obtain ⟨rfl, hsame⟩ | ⟨cs, w, hcs, hw, rfl⟩ := formatLine_eq_ok h
  · rw [drawLine, if_neg (Bool.eq_false_iff.mp hline)]
    apply Drawn.same hline hsame
  · have hshaped := (shapedLine_of_commands hone hcs).shaped
    have hwritten := written_of_renderLine hshaped hw
    have hstars := isCheckpointLine_written hwritten (lineEnd_lineEndOf line)
    rw [drawLine, endsLine_append_lineEndOf (hwritten.newline hshaped)]
    split
    · rename_i hcheckpoint
      obtain ⟨c, hc, hverb⟩ := hstars.mp hcheckpoint
      obtain ⟨ds, rfl⟩ := List.head?_eq_some_iff.mp hc
      apply Drawn.stars (.inr ⟨c, ds, hcs, hverb⟩)
    · rename_i hcheckpoint
      apply Drawn.written hcs _ hwritten
      intro c hc hverb
      apply hcheckpoint
      apply hstars.mpr ⟨c, hc, hverb⟩

theorem isLine_of_lines {ls : List Text} (h : Text.Lines ls) (l : Text) (hl : l ∈ ls) :
  IsLine l
  := newline_not_mem_dropLast_iff.mp (h.not_mem_dropLast hl)

theorem leastCheckpointWidth_le (lines : List Text) :
  leastCheckpointWidth ≤ checkpointWidth lines
  := by
  have hfold (n : Nat) (ls : List Text) :
      n ≤ ls.foldl (fun n line => max n (Text.trimEnd line).length) n := by
    induction ls generalizing n with
    | nil => apply le_rfl
    | cons l ls ih => apply (Nat.le_max_left _ _).trans (ih _)
  apply hfold

theorem checkpointWidth_pos (lines : List Text) :
  0 < checkpointWidth lines
  := Nat.lt_of_lt_of_le (by decide) (leastCheckpointWidth_le lines)

/-- A formatted score consists of what stands in the place of the lines of the score. -/
theorem formatIn_eq_ok [Memory] {t t' : Text} (h : formatIn α t = .ok t') :
  ∃ fs, formatSections (α := α) (sections (Text.lines t)) = .ok fs ∧
    t' = (drawCheckpoints fs).flatten ∧
    List.Forall₂ (Drawn (checkpointWidth fs)) (Text.lines t) (drawCheckpoints fs)
  := by
  obtain ⟨fs, hfs, h⟩ := bind_eq_ok h
  cases h
  use fs, hfs, rfl
  have hpairs : List.Forall₂ (fun l f => IsLine l → Drawn (checkpointWidth fs) l
      (drawLine (checkpointWidth fs) f)) (Text.lines t) fs := by
    apply forall₂_of_formatSections (α := α) _ _ hfs
    · intro l f hl layouts hf hone
      apply drawn_of_formatLine hl hone hf
    · intro l hl _
      rw [drawLine, if_pos hl]
      apply Drawn.stars (.inl hl)
  have hlines := isLine_of_lines (Text.lines_lines t)
  apply List.forall₂_map_right_iff.mpr
  apply ((List.forall₂_and_left _ _).mpr ⟨hlines, hpairs⟩).imp
  rintro l f ⟨hl, hdrawn⟩
  apply hdrawn hl

/-- What stands in the place of a line is one line with the same line end. -/
theorem Drawn.eq_append {width : Nat} {line d : Text} (h : Drawn width line d)
    (hline : IsLine line) :
  ∃ u, '\n' ∉ u ∧ d = u ++ lineEndOf line
  := by
  cases h with
  | same hcheckpoint h =>
    rw [lineEndOf]
    split
    · rename_i hend
      obtain ⟨u, rfl⟩ := Text.endsLine_iff.mp hend
      use u
      constructor
      · intro hmem
        obtain ⟨v, w, rfl⟩ := List.append_of_mem hmem
        have hnil := hline v (w ++ ['\n']) (by rw [List.append_assoc]; rfl)
        apply List.append_ne_nil_of_right_ne_nil w (List.cons_ne_nil '\n' []) hnil
      · rfl
    · rename_i hend
      use line
      constructor
      · intro hmem
        obtain ⟨v, w, rfl⟩ := List.append_of_mem hmem
        obtain rfl := hline v w rfl
        apply hend (Text.endsLine_append rfl)
      · rw [List.append_nil]
  | stars h => exact ⟨_, newline_not_mem_stars width, rfl⟩
  | @written w cs hcs hhead h => exact ⟨w, h.newline (shapedLine_of_commands hline hcs).shaped, rfl⟩

/-- The rows of a formatted score are what stands in the place of the lines of the score.  Behind a
last line end there is an empty row in both. -/
theorem rows_of_drawn {width : Nat} {ls ds : List Text} (hlines : Text.Lines ls)
    (h : List.Forall₂ (Drawn width) ls ds) :
  ∃ rs : List Text, (rs = [] ∨ rs = [[]]) ∧ Text.rows ls.flatten = ls ++ rs ∧
    Text.rows ds.flatten = ds ++ rs
  := by
  induction h with
  | nil => exact ⟨[[]], .inr rfl, rfl, rfl⟩
  | @cons line d ls ds hd hpairs ih =>
    obtain ⟨u, hu, rfl⟩ := hd.eq_append (isLine_of_lines hlines line List.mem_cons_self)
    cases hlines with
    | last hne hnot =>
      cases hpairs
      have hend : lineEndOf line = [] := by
        rw [lineEndOf, if_neg]
        intro hend
        apply hnot (Text.mem_of_endsLine hend)
      rw [hend, List.append_nil, List.flatten_singleton, List.flatten_singleton]
      exact ⟨[], .inl rfl, Text.rows_of_not_mem hnot, Text.rows_of_not_mem hu⟩
    | @cons v _ hv hls =>
      obtain ⟨rs, hrs, hrows, hrows'⟩ := ih hls
      have hend : lineEndOf (v ++ ['\n']) = ['\n'] := by
        rw [lineEndOf, if_pos (Text.endsLine_append rfl)]
      have hcons {w : Text} (hw : '\n' ∉ w) (ls : List Text) :
          Text.rows ((w ++ ['\n']) :: ls).flatten = (w ++ ['\n']) :: Text.rows ls.flatten := by
        rw [List.flatten_cons, List.append_assoc, List.singleton_append, Text.rows_append hw]
      rw [hend, hcons hv, hcons hu, hrows, hrows']
      exact ⟨rs, hrs, rfl, rfl⟩

/-- The lines of a formatted score are what stands in the place of the lines of the score; only the
last of these may be nothing. -/
theorem lines_of_drawn {width : Nat} {ls ds : List Text} (hlines : Text.Lines ls)
    (h : List.Forall₂ (Drawn width) ls ds) :
  Text.lines ds.flatten = ds.filter fun d => !d.isEmpty
  := by
  obtain ⟨rs, rfl | rfl, -, hrows⟩ := rows_of_drawn hlines h
  · rw [Text.lines, hrows, List.append_nil]
  · rw [Text.lines, hrows, List.filter_append, List.filter_singleton]
    exact List.append_nil _

end Layout

end Tunescript
