import Tunescript.Layout.Document
import Tunescript.Proofs.Layout.Room
import Tunescript.Proofs.Number.Finite

/-!
# Scores that can be formatted

A score can be formatted exactly if there is room for the commands of each of its lines
(`exists_formatIn_iff`).  In doubles this asks for two things: the columns under every note have a
width that is a number, and memory holds the columns of the line (`room_iff`).
-/

namespace Tunescript.Layout

open Binary64 (IsNumber)

theorem exists_mapM_iff {ε β γ : Type} {f : β → Except ε γ} {bs : List β} :
  (∃ cs, bs.mapM f = .ok cs) ↔ ∀ b ∈ bs, ∃ c, f b = .ok c
  := by
  induction bs with
  | nil => simp [pure, Except.pure]
  | cons b bs ih =>
    rw [List.mapM_cons, exists_bind_iff, List.forall_mem_cons, ← ih]
    simp [exists_bind_iff, pure, Except.pure]

section Lines

variable [Memory] {α : Type} [Scalar α]

/-- A line can be formatted exactly if it stays as it is or there is room for its commands. -/
theorem exists_formatLine_iff {layouts : List (List (Segment α))} {line : Text} :
  (∃ f, formatLine layouts line = .ok f) ↔ (Score.isCommentLine line = false →
    ∀ cs, Score.read line = .ok cs → Room layouts cs)
  := by
  rw [formatLine]
  split
  · rename_i hcomment
    simp [hcomment]
  · rename_i hcomment
    rw [Bool.not_eq_true _ |>.mp hcomment]
    cases Score.read line with
    | error e => simp
    | ok cs =>
      dsimp only
      rw [exists_bind_iff]
      simp [← exists_renderLine_iff, pure, Except.pure]

theorem exists_formatSections_iff {ss : List Section} :
  (∃ fs, formatSections (α := α) ss = .ok fs) ↔
    ∀ s ∈ ss, ∃ fs, formatBlock (α := α) s.block = .ok fs
  := by
  induction ss with
  | nil => simp [formatSections]
  | cons s ss ih =>
    rw [formatSections, exists_bind_iff, List.forall_mem_cons, ← ih]
    simp [exists_bind_iff, pure, Except.pure]

/-- A score can be formatted exactly if on all lines of its blocks that are read there is room for
the commands. -/
theorem exists_formatIn_iff {t : Text} :
  (∃ t', formatIn α t = .ok t') ↔ ∀ s ∈ sections (Text.lines t), ∀ line ∈ s.block,
    Score.isCommentLine line = false → ∀ cs, Score.read line = .ok cs →
      Room (layoutBlock s.block : List (List (Segment α))) cs
  := by
  rw [formatIn, exists_bind_iff]
  simp [exists_formatSections_iff, formatBlock, exists_mapM_iff, exists_formatLine_iff, pure,
    Except.pure]

end Lines

/-- A note on a line that takes part in a layout, with the layout of its measure and its time
there. -/
structure LaidOut (layouts : List (List (Segment Float))) (cs : List Command) where
  /-- The commands before the note. -/
  before : List Command
  /-- The name of the note. -/
  name : Text
  /-- The length of the note as it is written. -/
  noun : Text
  /-- The commands behind the note. -/
  after : List Command
  /-- The layout of its measure. -/
  segments : List (Segment Float)
  /-- The commands are those of the line. -/
  commands_eq : cs = before ++ ⟨.note name, noun⟩ :: after
  /-- The note has a length. -/
  not_atMost_zero : Scalar.atMost (NoteLength.quarters noun : Float) Scalar.zero = false
  /-- The bars before the note lead to its measure. -/
  getElem?_layouts : layouts[before.foldl barsAfter 0 - 1]? = some segments

namespace LaidOut

variable {layouts : List (List (Segment Float))} {cs : List Command} (n : LaidOut layouts cs)

/-- The time at which the note starts in its measure. -/
def time : Float := n.before.foldl timeAfter Scalar.zero

/-- The width of the columns under the note. -/
def width : Float := widthBetween n.segments n.time (n.time + NoteLength.quarters n.noun)

theorem target_eq :
  target layouts (n.before.foldl barsAfter 0 - 1) n.time (NoteLength.quarters n.noun)
    (token n.name n.noun) = Scalar.ceiling n.width
  := by
  rw [target, n.getElem?_layouts]
  rfl

end LaidOut

/-- There is room for the commands of a line exactly if the columns under each of its notes have a
width that is a number, and memory holds the columns of the line. -/
theorem room_iff [Memory] {layouts : List (List (Segment Float))} {cs : List Command} :
  Room layouts cs ↔ (∀ n : LaidOut layouts cs, IsNumber n.width) ∧ LineFits layouts cs
  := by
  constructor
  · rintro ⟨hcolumns, hfits⟩
    refine ⟨?_, hfits⟩
    intro n
    obtain ⟨columns, h⟩ := hcolumns n.before _ n.after n.commands_eq n.name rfl n.not_atMost_zero
    exact Binary64.exists_ceiling_iff.mp ⟨columns, n.target_eq.symm.trans h⟩
  · rintro ⟨hnumber, hfits⟩
    refine ⟨?_, hfits⟩
    rintro before ⟨verb, noun⟩ after hcs name rfl hlength
    cases hlayout : layouts[before.foldl barsAfter 0 - 1]? with
    | none =>
      -- A measure without a layout gives the note the room of its text.
      rw [target, hlayout]
      exact ⟨_, rfl⟩
    | some segments =>
      let n : LaidOut layouts cs := ⟨before, name, noun, after, segments, hcs, hlength, hlayout⟩
      obtain ⟨columns, hcolumns⟩ := Binary64.exists_ceiling_iff.mpr (hnumber n)
      exact ⟨columns, n.target_eq.trans hcolumns⟩

end Tunescript.Layout
