import Mathlib.Data.List.Forall2
import Tunescript.Layout.Document
import Tunescript.Proofs.Score.Alike

/-!
# The sections of a score

The lines of a score are blocks of lines with a checkpoint line behind each but the last
(`Sectioned`). What holds of each line that is formatted by itself holds of the lines of a formatted
score (`forall₂_of_formatSections`).
-/

namespace Tunescript.Layout

open Score

/-- The lines are blocks with checkpoint lines between them. -/
inductive Sectioned : List Text → Prop
  /-- The last block. -/
  | last {ls : List Text} (h : ∀ l ∈ ls, isCheckpointLine l = false) : Sectioned ls
  /-- A block, the checkpoint line that ends it, and the other lines. -/
  | cons {ls ms : List Text} {l : Text} (hls : ∀ l ∈ ls, isCheckpointLine l = false)
    (hl : isCheckpointLine l) (h : Sectioned ms) : Sectioned (ls ++ l :: ms)

theorem sectioned (ls : List Text) :
  Sectioned ls
  := by
  induction ls with
  | nil =>
    apply Sectioned.last
    simp
  | cons l ls ih =>
    cases hl : isCheckpointLine l with
    | true =>
      rw [← List.nil_append (l :: ls)]
      apply Sectioned.cons _ hl ih
      simp
    | false =>
      cases ih with
      | last h => apply Sectioned.last (List.forall_mem_cons.mpr ⟨hl, h⟩)
      | cons hls hm h => apply Sectioned.cons (List.forall_mem_cons.mpr ⟨hl, hls⟩) hm h

theorem sections_eq_singleton {ls : List Text} (h : ∀ l ∈ ls, isCheckpointLine l = false) :
  sections ls = [⟨ls, none⟩]
  := by
  induction ls with
  | nil => rfl
  | cons l ls ih =>
    obtain ⟨hl, hls⟩ := List.forall_mem_cons.mp h
    rw [sections, if_neg (Bool.eq_false_iff.mp hl), ih hls]

theorem sections_append {ls ms : List Text} {l : Text} (hls : ∀ l ∈ ls, isCheckpointLine l = false)
    (hl : isCheckpointLine l) :
  sections (ls ++ l :: ms) = ⟨ls, some l⟩ :: sections ms
  := by
  induction ls with
  | nil => rw [List.nil_append, sections, if_pos hl]
  | cons k ls ih =>
    obtain ⟨hk, hls⟩ := List.forall_mem_cons.mp hls
    rw [List.cons_append, sections, if_neg (Bool.eq_false_iff.mp hk), ih hls]

variable {α : Type} [Scalar α]

theorem forall₂_of_mapM {ε α β : Type} {f : α → Except ε β} {as : List α} {bs : List β}
    (h : as.mapM f = .ok bs) :
  List.Forall₂ (fun a b => f a = .ok b) as bs
  := by
  induction as generalizing bs with
  | nil =>
    cases h
    apply List.Forall₂.nil
  | cons a as ih =>
    rw [List.mapM_cons] at h
    obtain ⟨b, hb, h⟩ := bind_eq_ok h
    obtain ⟨cs, hcs, h⟩ := bind_eq_ok h
    cases h
    constructor
    · apply hb
    · apply ih hcs

/-- The formatted lines of a score that starts with a section that a checkpoint line ends. -/
theorem formatSections_cons_eq_ok [Memory] {s : Section} {ss : List Section} {fs : List Text}
    (h : formatSections (α := α) (s :: ss) = .ok fs) :
  ∃ gs hs, formatBlock (α := α) s.block = .ok gs ∧ formatSections (α := α) ss = .ok hs ∧
    fs = gs ++ s.closing.toList ++ hs
  := by
  obtain ⟨gs, hgs, h⟩ := bind_eq_ok h
  obtain ⟨hs, hhs, h⟩ := bind_eq_ok h
  cases h
  exact ⟨gs, hs, hgs, hhs, rfl⟩

/-- What relates a line to itself written with any layout, and a checkpoint line to itself, relates
the lines of a score to the formatted lines. -/
theorem forall₂_of_formatSections [Memory] {R : Text → Text → Prop}
    (hline : ∀ l f, isCheckpointLine l = false →
      ∀ layouts : List (List (Segment α)), formatLine layouts l = .ok f → R l f)
    (hcheckpoint : ∀ l, isCheckpointLine l → R l l) {ls fs : List Text}
    (h : formatSections (α := α) (sections ls) = .ok fs) :
  List.Forall₂ R ls fs
  := by
  have hblock {ls gs : List Text} (hls : ∀ l ∈ ls, isCheckpointLine l = false)
      (h : formatBlock (α := α) ls = .ok gs) : List.Forall₂ R ls gs := by
    apply ((List.forall₂_and_left _ _).mpr ⟨hls, forall₂_of_mapM h⟩).imp
    rintro l f ⟨hl, hf⟩
    apply hline l f hl _ hf
  induction sectioned ls generalizing fs with
  | last hls =>
    rw [sections_eq_singleton hls] at h
    obtain ⟨gs, hs, hgs, hhs, rfl⟩ := formatSections_cons_eq_ok h
    cases hhs
    rw [List.append_nil]
    dsimp only [Option.toList_none]
    rw [List.append_nil]
    apply hblock hls hgs
  | cons hls hl hms ih =>
    rw [sections_append hls hl] at h
    obtain ⟨gs, hs, hgs, hhs, rfl⟩ := formatSections_cons_eq_ok h
    rw [List.append_assoc]
    apply List.rel_append (hblock hls hgs)
    apply List.Forall₂.cons (hcheckpoint _ hl) (ih hhs)

end Tunescript.Layout
