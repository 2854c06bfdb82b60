import Tunescript.Proofs.Layout.Settled

/-!
# Formatted scores that are formatted again

The lines of a formatted score are split into blocks by its lines of stars.  Formatting it again
changes nothing exactly if every line of the score is settled (`format_format_iff`): its lasting
commands come back, and the notes that are left in its part of the block give them the room that the
whole block gave them.
-/

namespace Tunescript.Layout

open Score
open Text (endsLine)

section Split

variable {α β : Type}

theorem forall_iff_of_forall₂ {R : α → β → Prop} {as : List α} {bs : List β} {P : α → Prop}
    {Q : β → Prop} (h : List.Forall₂ R as bs) (hiff : ∀ a b, R a b → (P a ↔ Q b)) :
  (∀ a ∈ as, P a) ↔ ∀ b ∈ bs, Q b
  := by
  induction h with
  | nil => simp
  | cons hab h ih => rw [List.forall_mem_cons, List.forall_mem_cons, hiff _ _ hab, ih]

/-- Lists that are related are split into related parts. -/
theorem forall₂_splitOnP {R : α → β → Prop} {p : α → Bool} {q : β → Bool} {as : List α}
    {bs : List β} (h : List.Forall₂ R as bs) (hpq : ∀ a b, R a b → p a = q b) :
  List.Forall₂ (List.Forall₂ R) (as.splitOnP p) (bs.splitOnP q)
  := by
  induction h with
  | nil => simp [List.splitOnP_nil]
  | @cons a b as bs hab h ih =>
    rw [List.splitOnP_cons_eq_if_modifyHead, List.splitOnP_cons_eq_if_modifyHead, hpq a b hab]
    split
    · apply List.Forall₂.cons List.Forall₂.nil ih
    · obtain ⟨r, rs, hr⟩ := List.exists_cons_of_ne_nil (List.splitOnP_ne_nil p as)
      obtain ⟨s, ss, hs⟩ := List.exists_cons_of_ne_nil (List.splitOnP_ne_nil q bs)
      rw [hr, hs, List.forall₂_cons] at ih
      rw [hr, hs, List.modifyHead_cons, List.modifyHead_cons, List.forall₂_cons, List.forall₂_cons]
      exact ⟨⟨hab, ih.1⟩, ih.2⟩

/-- What is kept in a list is split as before if the separators are kept. -/
theorem splitOnP_filter {p q : α → Bool} (hpq : ∀ a, p a → q a) (as : List α) :
  (as.filter q).splitOnP p = (as.splitOnP p).map (List.filter q)
  := by
  induction as with
  | nil => simp [List.splitOnP_nil]
  | cons a as ih =>
    obtain ⟨r, rs, hr⟩ := List.exists_cons_of_ne_nil (List.splitOnP_ne_nil p as)
    rw [List.splitOnP_cons_eq_if_modifyHead]
    cases hp : p a with
    | true =>
      rw [List.filter_cons_of_pos (hpq a hp), List.splitOnP_cons_eq_if_modifyHead, hp, ih]
      rfl
    | false =>
      cases hq : q a with
      | true =>
        rw [List.filter_cons_of_pos hq, List.splitOnP_cons_eq_if_modifyHead, hp, ih, hr]
        simp [hq]
      | false =>
        rw [List.filter_cons_of_neg (Bool.eq_false_iff.mp hq), ih, hr]
        simp [hq]

end Split

/-- Whether a line starts with a checkpoint, so that it is drawn as stars when it is formatted. -/
def startsWithCheckpoint (line : Text) : Bool :=
  match Score.read line with
  | .ok (c :: _) => c.verb == .checkpoint
  | _ => false

section Blocks

variable {α : Type} [Scalar α]

/-- The layouts of the measures of lines from the notes that are left when they have been
written. -/
def layoutLeft (lines : List Text) : List (List (Segment α)) :=
  let slots : List (Nat × Slot α) := lines.flatMap slotsLeft
  (List.range (measureCount slots)).map fun i => layoutMeasure (slotsIn i slots)

variable [Memory]

/-- Every line between checkpoint lines is formatted to itself. -/
def Formatted (α : Type) [Scalar α] (ls : List Text) : Prop :=
  ∀ block ∈ ls.splitOnP isCheckpointLine, ∀ line ∈ block,
    formatLine (layoutBlock block : List (List (Segment α))) line = .ok line

/-- A line of a block, and the formatted line. -/
structure FormattedLine (layouts : List (List (Segment α))) (line f : Text) : Prop where
  /-- It is one line. -/
  isLine : IsLine line
  /-- It belongs to a block. -/
  inBlock : isCheckpointLine line = false
  /-- The line is formatted. -/
  formatted : formatLine layouts line = .ok f

variable {layouts : List (List (Segment α))} {line f : Text} {ls fs : List Text}

theorem isCheckpointLine_formatLine (h : FormattedLine layouts line f) :
  startsWithCheckpoint line = isCheckpointLine f
  := by
  obtain ⟨hline, hcheckpoint, hformatted⟩ := h
  obtain ⟨rfl, hcomment | ⟨o, ho⟩⟩ | ⟨cs, w, hcs, hw, rfl⟩ := formatLine_eq_ok hformatted
  · rw [hcheckpoint, startsWithCheckpoint]
    cases hread : commands f with
    | error o => rw [Score.read, hread]
    | ok cs =>
      obtain ⟨noun, rfl⟩ := commands_of_isCommentLine hcomment hline hread
      rw [read_eq_ok.mpr hread]
      rfl
  · rw [hcheckpoint, startsWithCheckpoint, Score.read, ho]
  · have hshaped := (shapedLine_of_commands hline hcs).shaped
    have hwritten := written_of_renderLine hshaped hw
    rw [startsWithCheckpoint, read_eq_ok.mpr hcs, Bool.eq_iff_iff,
      isCheckpointLine_written hwritten (lineEnd_lineEndOf line)]
    obtain _ | ⟨c, cs⟩ := cs
    · simp
    · simp

/-- The formatted lines of a block have the notes that are left of its lines. -/
theorem layoutBlock_formatted (h : List.Forall₂ (FormattedLine layouts) ls fs) :
  (layoutBlock fs : List (List (Segment α))) = layoutLeft ls
  := by
  have hslots : (blockSlots fs : List (Nat × Slot α)) = ls.flatMap slotsLeft := by
    induction h with
    | nil => rfl
    | cons hline h ih =>
      rw [blockSlots_eq] at ih ⊢
      rw [List.flatMap_cons, List.flatMap_cons, ih,
        lineSlots_formatLine hline.isLine hline.formatted]
  rw [layoutBlock, layoutLeft, hslots]

/-- The formatted lines of a block stay as they are exactly if the lines are settled. -/
theorem formatted_block_iff (h : List.Forall₂ (FormattedLine layouts) ls fs) :
  Formatted α fs ↔ ∀ part ∈ ls.splitOnP startsWithCheckpoint, ∀ line ∈ part,
    Settled layouts (layoutLeft part) line
  := by
  symm
  apply forall_iff_of_forall₂ (forall₂_splitOnP h fun _ _ => isCheckpointLine_formatLine)
  intro part block hpart
  rw [layoutBlock_formatted hpart]
  apply forall_iff_of_forall₂ hpart
  intro line f hline
  rw [formatLine_iff hline.isLine hline.formatted]

theorem formatted_append {gs hs : List Text} {l : Text} (hl : isCheckpointLine l) :
  Formatted α (gs ++ l :: hs) ↔ Formatted α gs ∧ Formatted α hs
  := by
  rw [Formatted, List.splitOnP_append_cons gs hs hl, List.forall_mem_append]
  rfl

theorem formattedLine_of_formatBlock (hlines : ∀ l ∈ ls, IsLine l)
    (hls : ∀ l ∈ ls, isCheckpointLine l = false) (h : formatBlock (α := α) ls = .ok fs) :
  List.Forall₂ (FormattedLine (layoutBlock ls : List (List (Segment α)))) ls fs
  := by
  have hpairs := (List.forall₂_and_left _ _).mpr ⟨hls, forall₂_of_mapM h⟩
  have hpairs := (List.forall₂_and_left _ _).mpr ⟨hlines, hpairs⟩
  apply hpairs.imp
  rintro line f ⟨hline, hcheckpoint, hf⟩
  exact ⟨hline, hcheckpoint, hf⟩

/-- The formatted lines of a score stay as they are exactly if its lines are settled. -/
theorem formatted_sections_iff (hlines : ∀ l ∈ ls, IsLine l)
    (h : formatSections (α := α) (sections ls) = .ok fs) :
  Formatted α fs ↔ ∀ s ∈ sections ls, ∀ part ∈ s.block.splitOnP startsWithCheckpoint,
    ∀ line ∈ part, Settled (layoutBlock s.block : List (List (Segment α))) (layoutLeft part) line
  := by
  induction sectioned ls generalizing fs with
  | last hls =>
    rw [sections_eq_singleton hls] at h ⊢
    obtain ⟨gs, hs, hgs, hhs, rfl⟩ := formatSections_cons_eq_ok h
    cases hhs
    rw [List.forall_mem_singleton, List.append_nil]
    dsimp only [Option.toList_none]
    rw [List.append_nil]
    apply formatted_block_iff (formattedLine_of_formatBlock hlines hls hgs)
  | cons hls hl hms ih =>
    rw [List.forall_mem_append, List.forall_mem_cons] at hlines
    rw [sections_append hls hl] at h ⊢
    obtain ⟨gs, hs, hgs, hhs, rfl⟩ := formatSections_cons_eq_ok h
    dsimp only [Option.toList_some]
    rw [List.forall_mem_cons, List.append_assoc, List.singleton_append, formatted_append hl,
      ih hlines.2.2 hhs, formatted_block_iff (formattedLine_of_formatBlock hlines.1 hls hgs)]

end Blocks

section Stars

variable {width : Nat}

theorem isCheckpointLine_stars (hwidth : 0 < width) (e : Text) :
  isCheckpointLine (List.replicate width '*' ++ e)
  := by
  obtain ⟨n, rfl⟩ := Nat.exists_eq_succ_of_ne_zero hwidth.ne'
  rfl

theorem drawLine_of_checkpoint {line : Text} (h : isCheckpointLine line) :
  drawLine width line = List.replicate width '*' ++ lineEndOf line
  := by
  rw [drawLine, if_pos h]
  rfl

theorem drawLine_of_not_checkpoint {line : Text} (h : isCheckpointLine line = false) :
  drawLine width line = line
  := by
  rw [drawLine, if_neg (Bool.eq_false_iff.mp h)]

/-- Drawing a line keeps whether it is a checkpoint line. -/
theorem isCheckpointLine_drawLine (hwidth : 0 < width) (line : Text) :
  isCheckpointLine (drawLine width line) = isCheckpointLine line
  := by
  cases h : isCheckpointLine line with
  | true =>
    rw [drawLine_of_checkpoint h]
    apply isCheckpointLine_stars hwidth
  | false =>
    rw [drawLine_of_not_checkpoint h]
    apply h

/-- How wide a checkpoint line was drawn makes no difference when it is drawn again. -/
theorem drawLine_drawLine (hwidth : 0 < width) (n : Nat) (line : Text) :
  drawLine n (drawLine width line) = drawLine n line
  := by
  cases h : isCheckpointLine line with
  | true =>
    have hstars := isCheckpointLine_stars hwidth (lineEndOf line)
    rw [drawLine_of_checkpoint h, drawLine_of_checkpoint hstars,
      lineEndOf_append (newline_not_mem_stars width), drawLine_of_checkpoint h]
  | false => rw [drawLine_of_not_checkpoint h]

/-- Lines of stars stand where checkpoint lines stood, so that the blocks are the same. -/
theorem splitOnP_drawLine (hwidth : 0 < width) (ls : List Text) :
  (ls.map (drawLine width)).splitOnP isCheckpointLine = ls.splitOnP isCheckpointLine
  := by
  induction ls with
  | nil => rfl
  | cons l ls ih =>
    rw [List.map_cons, List.splitOnP_cons_eq_if_modifyHead, List.splitOnP_cons_eq_if_modifyHead,
      isCheckpointLine_drawLine hwidth, ih]
    split
    · rfl
    · rename_i h
      rw [drawLine_of_not_checkpoint (Bool.eq_false_iff.mpr h)]

/-- Lines of stars have no part in the width of the checkpoint lines. -/
theorem checkpointWidth_map_drawLine (hwidth : 0 < width) (ls : List Text) :
  checkpointWidth (ls.map (drawLine width)) = checkpointWidth ls
  := by
  have hkept : (ls.map (drawLine width)).filter (fun line => !isCheckpointLine line) =
      ls.filter fun line => !isCheckpointLine line := by
    induction ls with
    | nil => rfl
    | cons l ls ih =>
      rw [List.map_cons, List.filter_cons, List.filter_cons, isCheckpointLine_drawLine hwidth, ih]
      split
      · rename_i h
        rw [drawLine_of_not_checkpoint (by simpa using h)]
      · rfl
  rw [checkpointWidth, checkpointWidth, hkept]

/-- Empty lines have no part in the width of the checkpoint lines. -/
theorem checkpointWidth_filter (ls : List Text) :
  checkpointWidth (ls.filter fun l => !l.isEmpty) = checkpointWidth ls
  := by
  rw [checkpointWidth, checkpointWidth]
  generalize leastCheckpointWidth = n
  induction ls generalizing n with
  | nil => rfl
  | cons l ls ih =>
    obtain _ | ⟨x, l⟩ := l
    · have hzero : max n (Text.trimEnd []).length = n := Nat.max_eq_left (Nat.zero_le n)
      rw [List.filter_cons_of_neg (by simp), List.filter_cons_of_pos (by rfl), List.foldl_cons,
        hzero]
      apply ih
    · rw [List.filter_cons_of_pos (by simp), List.filter_cons, List.filter_cons]
      split
      · apply ih
      · apply ih

/-- The lines of stars that have been drawn are drawn as they are. -/
theorem drawCheckpoints_drawn (fs : List Text) :
  drawCheckpoints ((drawCheckpoints fs).filter fun l => !l.isEmpty) =
    (drawCheckpoints fs).filter fun l => !l.isEmpty
  := by
  have hwidth := checkpointWidth_pos fs
  rw [drawCheckpoints, drawCheckpoints, checkpointWidth_filter, checkpointWidth_map_drawLine hwidth]
  apply (List.map_congr_left _).trans (List.map_id _)
  intro l hl
  obtain ⟨f, -, rfl⟩ := List.mem_map.mp (List.mem_of_mem_filter hl)
  apply drawLine_drawLine hwidth _ f

end Stars

section Plain

variable {α : Type} [Scalar α] {ls : List Text}

/-- The commands of a line come back from the line that is written, and stay where they are. -/
structure PlainLine (cs : List Command) : Prop where
  /-- The commands are read from what is written for them. -/
  legible : LegibleLine cs
  /-- No checkpoint follows another. -/
  separated : Separated cs
  /-- The line is not drawn as stars. -/
  start : ∀ c, cs.head? = some c → c.verb ≠ .checkpoint

theorem lasting_eq_self {cs : List Command} (h : ∀ c ∈ cs.dropLast, c.verb.isRemark = false) :
  lasting cs = cs
  := by
  induction cs with
  | nil => rfl
  | cons c cs ih =>
    cases hremark : c.verb.isRemark with
    | true =>
      obtain rfl := eq_nil_of_remark h hremark
      apply lasting_of_remark hremark
    | false => rw [lasting_of_not_remark hremark, ih (remark_tail h)]

theorem mem_of_mem_sections {s : Section} (hs : s ∈ sections ls) :
  ∀ l ∈ s.block, l ∈ ls ∧ isCheckpointLine l = false
  := by
  induction sectioned ls with
  | last hls =>
    rw [sections_eq_singleton hls, List.mem_singleton] at hs
    rw [hs]
    intro l hl
    exact ⟨hl, hls l hl⟩
  | cons hls hl hms ih =>
    rw [sections_append hls hl, List.mem_cons] at hs
    obtain rfl | hs := hs
    · intro l hl
      exact ⟨List.mem_append_left _ hl, hls l hl⟩
    · intro l hl
      obtain ⟨hmem, hnot⟩ := ih hs l hl
      exact ⟨List.mem_append_right _ (List.mem_cons_of_mem _ hmem), hnot⟩

theorem slotsLeft_of_plain {line : Text}
    (h : ∀ cs, Score.read line = .ok cs → PlainLine cs) :
  (slotsLeft line : List (Nat × Slot α)) = lineSlots line
  := by
  cases hread : commands line with
  | error o => rw [slotsLeft_of_error hread, lineSlots_of_error hread]
  | ok cs =>
    have hlegible := (h cs (read_eq_ok.mpr hread)).legible
    have hlasts : Lasts cs := by
      rw [Lasts, lasting_eq_self hlegible.remark]
      intro c hc
      apply Or.inl (hlegible.legible c hc)
    rw [slotsLeft_of_ok hread, lineSlots_of_ok hread, left, if_pos hlasts,
      lasting_eq_self hlegible.remark]

theorem startsWithCheckpoint_of_plain {line : Text}
    (h : ∀ cs, Score.read line = .ok cs → PlainLine cs) :
  startsWithCheckpoint line = false
  := by
  rw [startsWithCheckpoint]
  split
  · rename_i c cs hread
    apply beq_eq_false_iff_ne.mpr
    apply (h _ hread).start c rfl
  · rfl

end Plain

section Fixed

variable {α : Type} [Scalar α] {ls fs : List Text}

theorem mapM_eq_self_iff {ε β : Type} {f : β → Except ε β} {as : List β} :
  as.mapM f = .ok as ↔ ∀ a ∈ as, f a = .ok a
  := by
  constructor
  · intro h
    have hpairs := forall₂_of_mapM h
    rw [List.forall₂_same] at hpairs
    apply hpairs
  · intro h
    induction as with
    | nil => rfl
    | cons a as ih =>
      rw [List.forall_mem_cons] at h
      rw [List.mapM_cons, h.1, ih h.2]
      rfl

/-- A checkpoint line that is drawn as it was has been kept by formatting. -/
theorem eq_of_drawLine {width : Nat} (hwidth : 0 < width)
    (h : List.Forall₂ (fun l f => isCheckpointLine l → f = l) ls fs)
    (hdrawn : fs.map (drawLine width) = ls) :
  fs = ls
  := by
  induction h with
  | nil => rfl
  | @cons l f ls fs hlf h ih =>
    rw [List.map_cons, List.cons.injEq] at hdrawn
    obtain ⟨hl, hls⟩ := hdrawn
    rw [ih hls]
    congr 1
    cases hf : isCheckpointLine f with
    | true =>
      apply hlf
      rw [← hl, isCheckpointLine_drawLine hwidth, hf]
    | false => rw [← hl, drawLine_of_not_checkpoint hf]

theorem lineSlots_nil :
  (lineSlots [] : List (Nat × Slot α)) = []
  := by
  rw [lineSlots_of_ok (commands_nil rfl)]
  rfl

/-- Empty lines have no notes. -/
theorem layoutBlock_filter (ls : List Text) :
  (layoutBlock (ls.filter fun l => !l.isEmpty) : List (List (Segment α))) = layoutBlock ls
  := by
  have hslots : (blockSlots (ls.filter fun l => !l.isEmpty) : List (Nat × Slot α)) =
      blockSlots ls := by
    induction ls with
    | nil => rfl
    | cons l ls ih =>
      rw [blockSlots_eq, blockSlots_eq] at ih ⊢
      obtain _ | ⟨x, l⟩ := l
      · rw [List.filter_cons_of_neg (by simp), ih, List.flatMap_cons, lineSlots_nil,
          List.nil_append]
      · rw [List.filter_cons_of_pos (by simp), List.flatMap_cons, List.flatMap_cons, ih]
  rw [layoutBlock, layoutBlock, hslots]

variable [Memory]

theorem formatBlock_self_iff (hls : ∀ l ∈ ls, isCheckpointLine l = false) :
  formatBlock (α := α) ls = .ok ls ↔ Formatted α ls
  := by
  rw [Formatted, List.splitOnP_eq_singleton hls, List.forall_mem_singleton, formatBlock,
    mapM_eq_self_iff]

theorem formatSections_cons {s : Section} {ss : List Section} {gs hs : List Text}
    (hgs : formatBlock (α := α) s.block = .ok gs) (hhs : formatSections (α := α) ss = .ok hs) :
  formatSections (α := α) (s :: ss) = .ok (gs ++ s.closing.toList ++ hs)
  := by
  rw [formatSections, hgs, hhs]
  rfl

/-- The lines of a score are formatted to themselves if every line of a block is. -/
theorem formatSections_self_iff (ls : List Text) :
  formatSections (α := α) (sections ls) = .ok ls ↔ Formatted α ls
  := by
  induction sectioned ls with
  | @last ls hls =>
    rw [sections_eq_singleton hls, ← formatBlock_self_iff hls]
    constructor
    · intro h
      obtain ⟨gs, hs, hgs, hhs, heq⟩ := formatSections_cons_eq_ok h
      cases hhs
      dsimp only [Option.toList_none] at heq
      rw [List.append_nil, List.append_nil] at heq
      rw [← heq] at hgs
      apply hgs
    · intro h
      apply (formatSections_cons (s := ⟨ls, none⟩) h rfl).trans
      simp
  | @cons ls ms l hls hl hms ih =>
    rw [sections_append hls hl, formatted_append hl, ← formatBlock_self_iff hls, ← ih]
    constructor
    · intro h
      obtain ⟨gs, hs, hgs, hhs, heq⟩ := formatSections_cons_eq_ok h
      dsimp only [Option.toList_some] at heq
      rw [List.append_assoc, List.singleton_append] at heq
      obtain ⟨hblock, hrest⟩ := List.append_inj heq (forall₂_of_mapM hgs).length_eq
      obtain ⟨-, hrest⟩ := List.cons.inj hrest
      rw [← hblock] at hgs
      rw [← hrest] at hhs
      exact ⟨hgs, hhs⟩
    · rintro ⟨hgs, hhs⟩
      apply (formatSections_cons (s := ⟨ls, some l⟩) hgs hhs).trans
      simp

/-- Formatting a score changes nothing exactly if its lines are formatted to themselves and its
checkpoint lines are drawn as they are. -/
theorem formatIn_self_iff (t : Text) :
  formatIn α t = .ok t ↔ Formatted α (Text.lines t) ∧ drawCheckpoints (Text.lines t) = Text.lines t
  := by
  constructor
  · intro h
    obtain ⟨fs, hfs, ht, hdrawn⟩ := formatIn_eq_ok h
    have hlines := lines_of_drawn (Text.lines_lines t) hdrawn
    rw [← ht] at hlines
    have hall : (drawCheckpoints fs).filter (fun d => !d.isEmpty) = drawCheckpoints fs := by
      apply List.filter_sublist.eq_of_length
      rw [← hlines, hdrawn.length_eq]
    rw [hall] at hlines
    have hkept : fs = Text.lines t := by
      apply eq_of_drawLine (checkpointWidth_pos fs) _ hlines.symm
      apply forall₂_of_formatSections (α := α) _ _ hfs
      · intro l f hl layouts _ hcheckpoint
        rw [hl] at hcheckpoint
        cases hcheckpoint
      · intro l _ _
        rfl
    rw [hkept] at hfs hlines
    exact ⟨(formatSections_self_iff _).mp hfs, hlines.symm⟩
  · rintro ⟨hformatted, hdrawn⟩
    rw [formatIn, (formatSections_self_iff _).mpr hformatted]
    apply congrArg Except.ok
    rw [hdrawn, Text.flatten_lines]

theorem formatLine_nil (layouts : List (List (Segment α))) :
  formatLine layouts [] = .ok []
  := by
  have hwritten : renderLine [] layouts = .ok [] :=
    renderLine_eq_ok_iff.mpr ⟨[], rfl, Memory.size_pos, rfl⟩
  rw [formatLine_of_commands rfl (commands_nil rfl), hwritten]
  rfl

theorem formatted_filter_iff (ls : List Text) :
  Formatted α (ls.filter fun l => !l.isEmpty) ↔ Formatted α ls
  := by
  have hkept : ∀ l, isCheckpointLine l → (!l.isEmpty) = true := by
    intro l hl
    obtain _ | ⟨x, l⟩ := l
    · cases hl
    · rfl
  rw [Formatted, splitOnP_filter hkept, List.forall_mem_map]
  apply forall₂_congr
  intro block _
  rw [layoutBlock_filter]
  constructor
  · intro h l hl
    obtain _ | ⟨x, l⟩ := l
    · apply formatLine_nil
    · apply h _ (List.mem_filter.mpr ⟨hl, rfl⟩)
  · intro h l hl
    apply h l (List.mem_of_mem_filter hl)

/-- A formatted score stays as it is exactly if the lines of the score are settled. -/
theorem formatIn_formatIn_iff {t t' : Text} (h : formatIn α t = .ok t') :
  formatIn α t' = .ok t' ↔
    ∀ s ∈ sections (Text.lines t), ∀ part ∈ s.block.splitOnP startsWithCheckpoint, ∀ line ∈ part,
      Settled (layoutBlock s.block : List (List (Segment α))) (layoutLeft part) line
  := by
  obtain ⟨fs, hfs, rfl, hdrawn⟩ := formatIn_eq_ok h
  have hlines := isLine_of_lines (Text.lines_lines t)
  rw [formatIn_self_iff, lines_of_drawn (Text.lines_lines t) hdrawn,
    and_iff_left (drawCheckpoints_drawn fs), formatted_filter_iff,
    ← formatted_sections_iff hlines hfs, Formatted, drawCheckpoints,
    splitOnP_drawLine (checkpointWidth_pos fs)]
  rfl

/-- A formatted score stays as it is if all lines between its checkpoint lines are plain. -/
theorem formatIn_formatIn_of_plain {t t' : Text} (h : formatIn α t = .ok t')
    (hplain : ∀ line ∈ Text.lines t, isCheckpointLine line = false →
      ∀ cs, Score.read line = .ok cs → PlainLine cs) :
  formatIn α t' = .ok t'
  := by
  rw [formatIn_formatIn_iff h]
  intro s hs part hpart line hline
  have hblock : ∀ l ∈ s.block, ∀ cs, Score.read l = .ok cs → PlainLine cs := by
    intro l hl
    obtain ⟨hmem, hnot⟩ := mem_of_mem_sections hs l hl
    apply hplain l hmem hnot
  rw [List.splitOnP_eq_singleton fun l hl => startsWithCheckpoint_of_plain (hblock l hl),
    List.mem_singleton] at hpart
  have hslots : s.block.flatMap slotsLeft = (blockSlots s.block : List (Nat × Slot α)) := by
    rw [blockSlots_eq]
    apply List.flatMap_congr
    intro l hl
    apply slotsLeft_of_plain (hblock l hl)
  have hlayout : (layoutLeft s.block : List (List (Segment α))) = layoutBlock s.block := by
    rw [layoutLeft, layoutBlock, hslots]
  rw [hpart] at hline ⊢
  intro cs hcs _
  have hcs := hblock line hline cs hcs
  rw [lasting_eq_self hcs.legible.remark, hlayout]
  exact ⟨hcs.separated, hcs.legible.legible, rfl⟩

end Fixed

/-- Formatting a formatted score again changes nothing exactly if every line of the score is settled
where it stands: in the blocks between the checkpoint lines, as they are split by the lines that are
drawn as stars. -/
theorem format_format_iff [Memory] {t t' : Text} (h : format t = .ok t') :
  format t' = .ok t' ↔
    ∀ s ∈ sections (Text.lines t), ∀ part ∈ s.block.splitOnP startsWithCheckpoint, ∀ line ∈ part,
      Settled (layoutBlock s.block : List (List (Segment Float))) (layoutLeft part) line
  := formatIn_formatIn_iff h

attribute [local instance] Memory.sixteenGigabytes in
/-- A voice and two bars, written with single spaces, stay as they are. -/
theorem format_format_voice :
  format "% sine  |  |".toList = .ok "% sine | |".toList ∧
    format "% sine | |".toList = .ok "% sine | |".toList ∧
    ∀ s ∈ sections (Text.lines "% sine  |  |".toList),
      ∀ part ∈ s.block.splitOnP startsWithCheckpoint, ∀ line ∈ part,
        Settled (layoutBlock s.block : List (List (Segment Float))) (layoutLeft part) line
  := by
  have hfirst : format "% sine  |  |".toList = .ok "% sine | |".toList := by
    decide +kernel
  have hsecond : format "% sine | |".toList = .ok "% sine | |".toList := by
    decide +kernel
  exact ⟨hfirst, hsecond, (format_format_iff hfirst).mp hsecond⟩

attribute [local instance] Memory.sixteenGigabytes in
/-- Two checkpoints in a row lose a star each time. -/
theorem not_format_format_twoCheckpoints :
  format "| * * |".toList = .ok "| **|".toList ∧
    format "| **|".toList = .ok "| *|".toList ∧
    ¬format "| **|".toList = .ok "| **|".toList
  := by
  decide +kernel

end Tunescript.Layout
