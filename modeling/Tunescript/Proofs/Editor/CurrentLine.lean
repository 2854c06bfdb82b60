import Tunescript.Proofs.Editor.Outcome
import Tunescript.Proofs.Text.Contents

/-!
# The line of the cursor

The cursor is in a line with lines above and below it (`Session.Within`).  Opening a line leaves
that line among those above (`meets_openLine`), and preparing a line takes nothing but blanks from
it (`meets_prepareLine`).
-/

namespace Tunescript

namespace Session

/-- The cursor is at a column of a line, with lines above and below it. -/
structure Within (s : Session) (before : List Text) (line : Text) (after : List Text)
    (column : Nat) : Prop
    extends Text.Around s.text before line after where
  /-- The cursor is behind the lines above. -/
  cursor : s.cursor = ((Text.above before).length + column : Nat)
  /-- It is in the line or at its end. -/
  column_le : column ≤ line.length

variable {s : Session} {before after : List Text} {line : Text} {column : Nat}

/-- A cursor in the text is in one of its lines. -/
theorem exists_within (h : 0 ≤ s.cursor ∧ s.cursor ≤ s.text.length) :
  ∃ before line after column, s.Within before line after column
  := by
  obtain ⟨c, hc⟩ := Int.eq_ofNat_of_zero_le h.1
  have hle : c ≤ s.text.length := by omega
  obtain ⟨before, line, after, column, haround, rfl, hcolumn⟩ := Text.exists_around hle
  use before, line, after, column
  use haround, hc, hcolumn

namespace Within

variable (h : s.Within before line after column)

include h

theorem cursor_le :
  (Text.above before).length + column ≤ s.text.length
  := Nat.le_trans (Nat.add_le_add_left h.column_le _) h.length_le

theorem lineAt_eq :
  s.buffer.lineAt s.cursor = .ok before.length
  := by
  rw [h.cursor, s.buffer.lineAt_eq_ok h.cursor_le]
  apply congrArg Except.ok (h.count_take h.column_le)

end Within

end Session

namespace Action

variable {s : Session} {before after : List Text} {line : Text} {column : Nat} {E : Session → Prop}

theorem meets_currentLine_within {Q : Nat → Session → Prop} (hs : s.Within before line after column)
    (h : Q before.length s) :
  Meets currentLine s E Q
  := by
  apply meets_currentLine hs.cursor hs.cursor_le
  rw [hs.count_take hs.column_le]
  apply h

theorem meets_lineText_around {Q : Text → Session → Prop} (hs : s.text.Around before line after)
    (h : Q (line ++ (Text.below after).take 1) s) :
  Meets (lineText before.length) s E Q
  := by
  apply meets_lineText hs.lt_length_rows
  intro r hr
  obtain rfl := Option.some.inj (hr.symm.trans hs.getElem?_rows)
  apply h

theorem meets_lineStart_around {Q : Nat → Session → Prop} (hs : s.text.Around before line after)
    (h : Q (Text.above before).length s) :
  Meets (lineStart before.length) s E Q
  := by
  apply meets_lineStart hs.lt_length_rows
  rw [hs.rowsBefore_eq]
  apply h

/-- Opening a line moves below the line and leaves an empty line there. -/
theorem meets_openLine {Q : Unit → Session → Prop} (hs : s.Within before line after column)
    (h : ∀ (b : Buffer) (c : Int),
      Session.Within { s with buffer := b, cursor := c } (before ++ [line]) [] after 0 →
        Q () { s with buffer := b, cursor := c }) :
  Meets openLine s E Q
  := by
  have hroom := Text.length_rowsBefore_add_le hs.getElem?_rows
  rw [hs.rowsBefore_eq] at hroom
  apply meets_bind
  apply meets_currentLine_within hs
  apply meets_bind
  apply meets_lineText_around hs.toAround
  apply meets_bind
  apply meets_lineStart_around hs.toAround
  apply meets_bind
  apply meets_insertAt hroom
  intro b hb _
  have haround : b.text.Around (before ++ [line]) [] after := by
    rw [hb]
    apply hs.openLine rfl
  apply meets_moveTo
  apply h
  use haround
  · -- If there are lines below, the row has its line end already, and the new one belongs to the
    -- empty line.
    rw [Text.endsLine_row hs.free_line]
    cases after with
    | nil => simp [Int.add_assoc]
    | cons l ls => simp
  · apply Nat.le_refl

/-- Preparing a line leaves an empty line below everything that is written up to the line. -/
theorem meets_prepareLine {Q : Unit → Session → Prop} (hs : s.Within before line after column)
    (h : ∀ (ls : List Text) (b : Buffer) (c : Int),
      Text.written ls = Text.written (before ++ [line]) →
      Session.Within { s with buffer := b, cursor := c } ls [] after 0 →
        Q () { s with buffer := b, cursor := c }) :
  Meets prepareLine s E Q
  := by
  apply meets_bind
  apply meets_currentLine_within hs
  apply meets_bind
  apply meets_lineText_around hs.toAround
  rw [Text.isEmpty_trim_row]
  split
  · rename_i hblank
    have hwritten : Text.written before = Text.written (before ++ [line]) := by
      simp [Text.written, hblank]
    apply meets_bind
    apply meets_lineStart_around hs.toAround
    rw [Text.withoutLineEnd_row hs.free_line]
    dsimp only
    split
    · apply meets_bind
      apply meets_removeRange (Nat.le_add_right _ _) hs.length_le
      intro b hb _
      have haround : b.text.Around before [] after := by
        rw [hb]
        apply hs.clear
      apply meets_moveTo
      apply h before _ _ hwritten
      use haround, rfl, Nat.le_refl _
    · rename_i hnone
      obtain rfl : line = [] := by
        apply List.eq_nil_of_length_eq_zero
        omega
      apply meets_moveTo
      apply h before _ _ hwritten
      use hs.toAround, rfl, Nat.le_refl _
  · apply meets_openLine hs
    intro b c hwithin
    apply h _ b c rfl hwithin

end Action

end Tunescript
