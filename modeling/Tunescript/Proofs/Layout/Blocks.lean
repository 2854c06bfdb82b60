import Tunescript.Proofs.Layout.Drawn

/-!
# The lines of a block in a formatted score

The blocks of a score are told by the numbers of their lines, and these are the lines of its
sections (`exists_section_of_mem_ranges`).  A line of a block is formatted with the layouts of the
block and keeps its number in the formatted score, unless it is drawn as stars or nothing is left of
it (`getElem?_lines_of_formatIn`).
-/

namespace Tunescript.Layout

open Score
open Text (endsLine)

/-- The lines of sections. -/
def linesOf (ss : List Section) : List Text := ss.flatMap fun s => s.block ++ s.closing.toList

theorem linesOf_cons (s : Section) (ss : List Section) :
  linesOf (s :: ss) = s.block ++ s.closing.toList ++ linesOf ss
  := List.flatMap_cons

theorem linesOf_sections (ls : List Text) :
  linesOf (sections ls) = ls
  := by
  induction sectioned ls with
  | last h => simp [sections_eq_singleton h, linesOf]
  | cons hls hl hms ih => simp [sections_append hls hl, linesOf_cons, ih]

/-- A block has the numbers of the lines of a section. -/
theorem exists_section_of_mem_ranges {ss : List Section} {n first stop : Nat}
    (h : (first, stop) ∈ ranges n ss) :
  ∃ before s after, ss = before ++ s :: after ∧ first = n + (linesOf before).length ∧
    stop = first + s.block.length
  := by
  induction ss generalizing n with
  | nil => cases h
  | cons s ss ih =>
    have hrest (h : (first, stop) ∈ ranges (n + s.block.length + s.closing.toList.length) ss) :
        ∃ before s' after, s :: ss = before ++ s' :: after ∧
          first = n + (linesOf before).length ∧ stop = first + s'.block.length := by
      obtain ⟨before, s', after, rfl, hfirst, hstop⟩ := ih h
      refine ⟨s :: before, s', after, rfl, ?_, hstop⟩
      rw [hfirst, linesOf_cons, List.length_append, List.length_append]
      omega
    rw [ranges] at h
    split at h
    · apply hrest h
    · obtain h | h := List.mem_cons.mp h
      · obtain ⟨rfl, rfl⟩ := Prod.mk.inj h
        exact ⟨[], s, ss, rfl, rfl, rfl⟩
      · apply hrest h

variable {α : Type} [Scalar α]

/-- A part of the sections is formatted by itself, line by line. -/
theorem formatSections_append_eq_ok [Memory] {ss ss' : List Section} {fs : List Text}
    (h : formatSections (α := α) (ss ++ ss') = .ok fs) :
  ∃ gs hs, formatSections (α := α) ss' = .ok hs ∧ fs = gs ++ hs ∧ gs.length = (linesOf ss).length
  := by
  induction ss generalizing fs with
  | nil => exact ⟨[], fs, h, rfl, rfl⟩
  | cons s ss ih =>
    obtain ⟨gs, hs, hgs, hhs, rfl⟩ := formatSections_cons_eq_ok h
    obtain ⟨gs', hs', hss', rfl, hlength⟩ := ih hhs
    refine ⟨gs ++ s.closing.toList ++ gs', hs', hss', by simp, ?_⟩
    have hblock := (forall₂_of_mapM hgs).length_eq
    simp only [linesOf_cons, List.length_append]
    omega

/-- A line of a block is formatted with the layouts of the block. -/
theorem formatLine_of_mem_blocks [Memory] {ls fs : List Text} {first stop m : Nat}
    (h : formatSections (α := α) (sections ls) = .ok fs) (hblock : (first, stop) ∈ blocks ls)
    (hfirst : first ≤ m) (hstop : m < stop) :
  ∃ line f, line ∈ (ls.take stop).drop first ∧ ls[m]? = some line ∧ fs[m]? = some f ∧
    formatLine (layoutBlock ((ls.take stop).drop first) : List (List (Segment α))) line = .ok f
  := by
  obtain ⟨before, s, after, hss, hn, rfl⟩ := exists_section_of_mem_ranges hblock
  obtain ⟨i, rfl⟩ := Nat.exists_eq_add_of_le hfirst
  rw [Nat.zero_add] at hn
  have hls : linesOf before ++ (s.block ++ (s.closing.toList ++ linesOf after)) = ls := by
    rw [← linesOf_sections ls, hss, linesOf, linesOf, linesOf, List.flatMap_append,
      List.flatMap_cons, List.append_assoc]
  have hlines : (ls.take (first + s.block.length)).drop first = s.block := by
    rw [← hls, hn]
    simp [List.take_append]
  rw [hss] at h
  obtain ⟨gs, hs, hhs, rfl, hlength⟩ := formatSections_append_eq_ok h
  obtain ⟨bs, rest, hbs, -, rfl⟩ := formatSections_cons_eq_ok hhs
  have hpairs := forall₂_of_mapM hbs
  have hi : i < s.block.length := Nat.lt_of_add_lt_add_left hstop
  have hi' : i < bs.length := hpairs.length_eq ▸ hi
  refine ⟨s.block[i], bs[i], ?_, ?_, ?_, ?_⟩
  · rw [hlines]
    apply List.getElem_mem
  · rw [← hls, hn, List.getElem?_append_right (Nat.le_add_right _ _), Nat.add_sub_cancel_left,
      List.getElem?_append_left hi, List.getElem?_eq_getElem]
  · rw [hn, ← hlength, List.getElem?_append_right (Nat.le_add_right _ _), Nat.add_sub_cancel_left,
      List.append_assoc, List.getElem?_append_left hi', List.getElem?_eq_getElem]
  · rw [hlines]
    apply (List.forall₂_iff_get.mp hpairs).2 i hi hi'

/-- What is drawn in the place of a line keeps the number of the line if it is not empty. -/
theorem getElem?_filter_of_drawn {width : Nat} {ls ds : List Text} (hlines : Text.Lines ls)
    (h : List.Forall₂ (Drawn width) ls ds) {m : Nat} {d : Text} (hd : ds[m]? = some d)
    (hne : d ≠ []) :
  (ds.filter fun d => !d.isEmpty)[m]? = some d
  := by
  induction h generalizing m with
  | nil => cases hd
  | @cons line e ls ds he hpairs ih =>
    obtain hline | rfl := hlines.endsLine_or
    · obtain ⟨u, -, hu⟩ := he.eq_append (isLine_of_lines hlines line List.mem_cons_self)
      rw [lineEndOf, if_pos hline] at hu
      rw [List.filter_cons_of_pos (by simp [hu])]
      cases m with
      | zero => exact hd
      | succ m => exact ih hlines.tail hd
    · cases hpairs
      cases m with
      | zero =>
        obtain rfl : e = d := Option.some.inj hd
        rw [List.filter_cons_of_pos (by simpa using hne)]
        rfl
      | succ m => cases hd

/-- A line of a block stands formatted with the layouts of the block in the formatted score, with
the same number, unless that makes it empty or a checkpoint line. -/
theorem getElem?_lines_of_formatIn [Memory] {t t' : Text} (h : formatIn α t = .ok t')
    {first stop m : Nat} (hblock : (first, stop) ∈ blocks (Text.lines t)) (hfirst : first ≤ m)
    (hstop : m < stop) :
  ∃ line f, line ∈ ((Text.lines t).take stop).drop first ∧ (Text.lines t)[m]? = some line ∧
    formatLine (layoutBlock (((Text.lines t).take stop).drop first) : List (List (Segment α)))
      line =
      .ok f ∧
    (isCheckpointLine f = false → f ≠ [] → (Text.lines t')[m]? = some f)
  := by
  obtain ⟨fs, hfs, rfl, hdrawn⟩ := formatIn_eq_ok h
  obtain ⟨line, f, hmem, hline, hf, hformat⟩ := formatLine_of_mem_blocks hfs hblock hfirst hstop
  refine ⟨line, f, hmem, hline, hformat, ?_⟩
  intro hcheckpoint hne
  rw [lines_of_drawn (Text.lines_lines t) hdrawn]
  apply getElem?_filter_of_drawn (Text.lines_lines t) hdrawn _ hne
  rw [drawCheckpoints, List.getElem?_map, hf, Option.map_some, drawLine,
    if_neg (Bool.eq_false_iff.mp hcheckpoint)]

end Tunescript.Layout
