import Tunescript.Proofs.Layout.Reformatted
import Tunescript.Proofs.Score.Respaced

/-!
# Dirt

The filler of a line and the number of stars of a checkpoint line are dirt: they have no part in the
formatted score (`format_dirtied`).  A line with other filler has the same commands, so that it
gives its block the same notes and is written alike with every layout, and a line of stars is drawn
again (`SameLayout`).
-/

namespace Tunescript.Layout

open Score
open Text (endsLine)

/-- A line, and the line with other dirt. -/
inductive Dirtied : Text → Text → Prop
  /-- The line is the same. -/
  | same (l : Text) : Dirtied l l
  /-- A line that can be read, which has other filler. -/
  | respaced {l m : Text} (hread : ∃ cs, Score.read l = .ok cs) (h : Respaced l m)
    (hl : isCommentLine l = false ∧ isCheckpointLine l = false)
    (hm : isCommentLine m = false ∧ isCheckpointLine m = false) : Dirtied l m
  /-- A line of stars, which has more of them or fewer. -/
  | stars {i j : Nat} {e : Text} (hi : 0 < i) (hj : 0 < j) (he : LineEnd e) :
    Dirtied (List.replicate i '*' ++ e) (List.replicate j '*' ++ e)

section Lines

variable {l m : Text}

/-- Dirt is no line end and makes no line out of nothing. -/
theorem Dirtied.line (h : Dirtied l m) :
  (l = [] ↔ m = []) ∧ l.count '\n' = m.count '\n' ∧ endsLine l = endsLine m
  := by
  cases h with
  | same => exact ⟨.rfl, rfl, rfl⟩
  | respaced _ h => exact ⟨h.eq_nil_iff, h.count_newline, h.endsLine_eq⟩
  | @stars i j e hi hj he =>
    have hnil (n : Nat) (hn : 0 < n) : List.replicate n '*' ++ e ≠ [] := by
      apply List.append_ne_nil_of_left_ne_nil
      simpa using hn.ne'
    refine ⟨iff_of_false (hnil i hi) (hnil j hj), ?_, ?_⟩
    · rw [List.count_append, List.count_append, List.count_eq_zero.mpr (newline_not_mem_stars i),
        List.count_eq_zero.mpr (newline_not_mem_stars j)]
    · obtain rfl | rfl := he
      · have hends (n : Nat) : endsLine (List.replicate n '*') = false := by
          apply Bool.eq_false_iff.mpr
          intro hends
          apply newline_not_mem_stars n (Text.mem_of_endsLine hends)
        rw [List.append_nil, List.append_nil, hends, hends]
      · rw [Text.endsLine_append rfl, Text.endsLine_append rfl]

/-- Lines with other dirt are the lines of the text that they make. -/
theorem lines_of_dirtied {ls ms : List Text} (h : List.Forall₂ Dirtied ls ms)
    (hls : Text.Lines ls) :
  Text.Lines ms
  := by
  induction h with
  | nil => exact .nil
  | @cons l m ls ms hlm h ih =>
    obtain ⟨hnil, hcount, hends⟩ := hlm.line
    cases hls with
    | last hne hl =>
      cases h
      apply Text.Lines.last (hnil.not.mp hne)
      rw [← List.count_eq_zero] at hl ⊢
      rw [← hcount, hl]
    | @cons u _ hu hls =>
      rw [Text.endsLine_append rfl] at hends
      obtain ⟨v, rfl⟩ := Text.endsLine_iff.mp hends.symm
      apply Text.Lines.cons _ (ih hls)
      rw [← List.count_eq_zero] at hu ⊢
      rw [List.count_append, List.count_append, hu] at hcount
      omega

end Lines

theorem mapM_congr_of_forall₂ {ε β γ : Type} {f : β → Except ε γ} {as bs : List β}
    (h : List.Forall₂ (fun a b => f a = f b) as bs) :
  as.mapM f = bs.mapM f
  := by
  induction h with
  | nil => rfl
  | cons hab _ ih => rw [List.mapM_cons, List.mapM_cons, hab, ih]

/-- Drawing the lines with one star first makes no difference. -/
theorem drawCheckpoints_map_drawLine (fs : List Text) :
  drawCheckpoints (fs.map (drawLine 1)) = drawCheckpoints fs
  := by
  rw [drawCheckpoints, drawCheckpoints, checkpointWidth_map_drawLine Nat.one_pos, List.map_map]
  apply List.map_congr_left
  intro f _
  apply drawLine_drawLine Nat.one_pos

section Layouts

variable [Memory]

/-- The lines have the same notes and are written alike with every layout. -/
structure SameLine (α : Type) [Scalar α] (l m : Text) : Prop where
  /-- The notes of the lines. -/
  slots : (lineSlots l : List (Nat × Slot α)) = lineSlots m
  /-- The written lines. -/
  formatted : ∀ layouts : List (List (Segment α)), formatLine layouts l = formatLine layouts m

/-- The lines are of one kind and cannot be told apart when they are formatted. -/
inductive SameLayout (α : Type) [Scalar α] : Text → Text → Prop
  /-- Lines of a block. -/
  | block {l m : Text} (hl : isCheckpointLine l = false) (hm : isCheckpointLine m = false)
    (h : SameLine α l m) : SameLayout α l m
  /-- Checkpoint lines that are drawn alike. -/
  | checkpoint {l m : Text} (hl : isCheckpointLine l) (hm : isCheckpointLine m)
    (hdraw : drawLine 1 l = drawLine 1 m) : SameLayout α l m

/-- Sections whose blocks have the same notes and are written alike, and whose checkpoint lines are
drawn alike. -/
structure SameSection (α : Type) [Scalar α] (r s : Section) : Prop where
  /-- The lines of the blocks. -/
  block : List.Forall₂ (SameLine α) r.block s.block
  /-- The checkpoint lines behind the blocks. -/
  closing : r.closing.map (drawLine 1) = s.closing.map (drawLine 1)

variable {α : Type} [Scalar α] {l m : Text} {ls ms : List Text}

theorem SameLayout.refl (l : Text) :
  SameLayout α l l
  := by
  cases hl : isCheckpointLine l with
  | true => exact .checkpoint hl hl rfl
  | false => exact .block hl hl ⟨rfl, fun _ => rfl⟩

theorem Dirtied.sameLayout (h : Dirtied l m) :
  SameLayout α l m
  := by
  cases h with
  | same => apply SameLayout.refl
  | respaced hread h hl hm =>
    obtain ⟨cs, hcs⟩ := hread
    have hcs := read_eq_ok.mp hcs
    have hcs' := h.commands_eq_ok hcs
    apply SameLayout.block hl.2 hm.2
    constructor
    · rw [lineSlots_of_ok hcs, lineSlots_of_ok hcs']
    · intro layouts
      rw [formatLine_of_commands hl.1 hcs, formatLine_of_commands hm.1 hcs', lineEndOf, lineEndOf,
        h.endsLine_eq]
  | @stars i j e hi hj he =>
    have hline := (Dirtied.stars hi hj he).line.2.2
    apply SameLayout.checkpoint (isCheckpointLine_stars hi e) (isCheckpointLine_stars hj e)
    rw [drawLine_of_checkpoint (isCheckpointLine_stars hi e),
      drawLine_of_checkpoint (isCheckpointLine_stars hj e), lineEndOf, lineEndOf, hline]

theorem sections_of_sameLayout (h : List.Forall₂ (SameLayout α) ls ms) :
  List.Forall₂ (SameSection α) (sections ls) (sections ms)
  := by
  induction h with
  | nil => exact .cons ⟨.nil, rfl⟩ .nil
  | @cons l m ls ms hlm _ ih =>
    cases hlm with
    | block hl hm h =>
      rw [sections, sections, if_neg (Bool.eq_false_iff.mp hl), if_neg (Bool.eq_false_iff.mp hm)]
      generalize sections ls = rs at ih
      generalize sections ms = ss at ih
      cases ih with
      | nil => exact .cons ⟨.cons h .nil, rfl⟩ .nil
      | cons hsection hrest => exact .cons ⟨.cons h hsection.block, hsection.closing⟩ hrest
    | checkpoint hl hm hdraw =>
      rw [sections, sections, if_pos hl, if_pos hm]
      exact .cons ⟨.nil, congrArg some hdraw⟩ ih

theorem formatBlock_congr (h : List.Forall₂ (SameLine α) ls ms) :
  formatBlock (α := α) ls = formatBlock (α := α) ms
  := by
  have hslots : (blockSlots ls : List (Nat × Slot α)) = blockSlots ms := by
    rw [blockSlots_eq, blockSlots_eq]
    induction h with
    | nil => rfl
    | cons hlm _ ih => rw [List.flatMap_cons, List.flatMap_cons, hlm.slots, ih]
  have hlayout : (layoutBlock ls : List (List (Segment α))) = layoutBlock ms := by
    rw [layoutBlock, layoutBlock, hslots]
  rw [formatBlock, formatBlock, hlayout]
  apply mapM_congr_of_forall₂
  apply h.imp
  intro l m hlm
  apply hlm.formatted

/-- The formatted lines of sections, with the checkpoint lines drawn with one star. -/
theorem map_formatSections_cons (s : Section) (ss : List Section) :
  (formatSections (α := α) (s :: ss)).map (List.map (drawLine 1)) =
    (formatBlock (α := α) s.block).bind fun gs =>
      ((formatSections (α := α) ss).map (List.map (drawLine 1))).map fun hs =>
        gs.map (drawLine 1) ++ (s.closing.map (drawLine 1)).toList ++ hs
  := by
  rw [formatSections]
  cases formatBlock (α := α) s.block with
  | error f => rfl
  | ok gs =>
    cases formatSections (α := α) ss with
    | error f => rfl
    | ok hs => simp [bind, Except.bind, pure, Except.pure, Except.map, Option.toList_map]

/-- The formatted lines are the same but for the width of the checkpoint lines. -/
theorem formatSections_congr {rs ss : List Section} (h : List.Forall₂ (SameSection α) rs ss) :
  (formatSections (α := α) rs).map (List.map (drawLine 1)) =
    (formatSections (α := α) ss).map (List.map (drawLine 1))
  := by
  induction h with
  | nil => rfl
  | cons hrs _ ih =>
    rw [map_formatSections_cons, map_formatSections_cons, formatBlock_congr hrs.block, hrs.closing,
      ih]

theorem formatIn_congr {t u : Text}
    (h : List.Forall₂ (SameLayout α) (Text.lines t) (Text.lines u)) :
  formatIn α t = formatIn α u
  := by
  have hdrawn (t : Text) : formatIn α t = ((formatSections (α := α) (sections (Text.lines t))).map
      (List.map (drawLine 1))).map fun fs => (drawCheckpoints fs).flatten := by
    rw [formatIn]
    cases formatSections (α := α) (sections (Text.lines t)) with
    | ok fs =>
      exact congrArg (fun ls => Except.ok ls.flatten) (drawCheckpoints_map_drawLine fs).symm
    | error f => rfl
  rw [hdrawn, hdrawn, formatSections_congr (sections_of_sameLayout h)]

/-- Dirt has no part in the formatted score: other filler in the lines that can be read and are
neither comments nor checkpoint lines, and other numbers of stars in the lines of stars, are
formatted alike. -/
theorem format_dirtied {t : Text} {ls : List Text} (h : List.Forall₂ Dirtied (Text.lines t) ls) :
  format ls.flatten = format t
  := by
  symm
  apply formatIn_congr
  rw [Text.lines_flatten (lines_of_dirtied h (Text.lines_lines t))]
  apply h.imp
  intro l m hlm
  apply hlm.sameLayout

end Layouts

attribute [local instance] Memory.sixteenGigabytes in
/-- A voice line with other filler around its bar and inside the token of its note, between lines of
stars of other lengths. -/
theorem format_dirtied_voiceLine :
  List.Forall₂ Dirtied (Text.lines "***\n% sine | (Cn_4 1/4)\n*".toList)
      ["*\n".toList, "%-\tsine -- |\t(Cn_4 - 1/4)\n".toList, "**".toList] ∧
    format "*\n%-\tsine -- |\t(Cn_4 - 1/4)\n**".toList =
      format "***\n% sine | (Cn_4 1/4)\n*".toList
  := by
  have hlines : Text.lines "***\n% sine | (Cn_4 1/4)\n*".toList =
      ["***\n".toList, "% sine | (Cn_4 1/4)\n".toList, "*".toList] := by
    decide +kernel
  have hread : Score.read "% sine | (Cn_4 1/4)\n".toList =
      .ok [⟨.voice, "sine".toList⟩, ⟨.measure, ['|']⟩, ⟨.note "Cn_4".toList, "1/4".toList⟩] := by
    decide +kernel
  have hrespaced : Respaced "% sine | (Cn_4 1/4)\n".toList
      "%-\tsine -- |\t(Cn_4 - 1/4)\n".toList := by
    have hrun {w : Text} (hw : !w.isEmpty && w.all isInlineFiller) : Run isInlineFiller w := by
      rw [Bool.and_eq_true, Bool.not_eq_true', List.isEmpty_eq_false_iff, List.all_eq_true] at hw
      apply hw
    apply Respaced.append_left (p := ['%']) rfl
    apply Respaced.fill (w := [' ']) (v := ['-', '\t']) (hrun rfl) (hrun rfl)
      (by rintro c ⟨⟩; rfl)
    apply Respaced.append_left (p := ['s', 'i', 'n', 'e']) rfl
    apply Respaced.fill (w := [' ']) (v := [' ', '-', '-', ' ']) (hrun rfl) (hrun rfl)
      (by rintro c ⟨⟩; rfl)
    apply Respaced.append_left (p := ['|']) rfl
    apply Respaced.fill (w := [' ']) (v := ['\t']) (hrun rfl) (hrun rfl) (by rintro c ⟨⟩; rfl)
    apply Respaced.append_left (p := ['(', 'C', 'n', '_', '4']) rfl
    apply Respaced.fill (w := [' ']) (v := [' ', '-', ' ']) (hrun rfl) (hrun rfl)
      (by rintro c ⟨⟩; rfl)
    apply Respaced.refl
  have hdirtied : List.Forall₂ Dirtied (Text.lines "***\n% sine | (Cn_4 1/4)\n*".toList)
      ["*\n".toList, "%-\tsine -- |\t(Cn_4 - 1/4)\n".toList, "**".toList] := by
    rw [hlines]
    apply List.Forall₂.cons (.stars (i := 3) (j := 1) (e := ['\n']) (by decide) (by decide)
      (.inr rfl))
    apply List.Forall₂.cons (.respaced ⟨_, hread⟩ hrespaced (by decide) (by decide))
    apply List.Forall₂.cons (.stars (i := 1) (j := 2) (e := []) (by decide) (by decide) (.inl rfl))
    exact .nil
  exact ⟨hdirtied, format_dirtied hdirtied⟩

end Tunescript.Layout
