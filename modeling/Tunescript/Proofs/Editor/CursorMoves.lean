import Tunescript.Proofs.Editor.Cursor
import Tunescript.Proofs.Editor.VerticalMoves
import Tunescript.Proofs.Preview.LatestLines

/-!
# Moves stay in the text

Every gesture keeps the cursor in the text, because it moves to a character that it found, to the
start or the end of a line, or not at all.  Undoing and redoing bring back a cursor together with
the text that it was in.
-/

namespace Tunescript

namespace Action

theorem settles_modify {f : Session → Session} (h : ∀ s : Session, s.Valid → (f s).Valid) :
  Settles (modify f)
  := by
  intro s hs
  apply meets_modify
  apply h s hs

theorem settles_pure :
  Settles (pure ())
  := by
  intro s hs
  apply meets_pure hs

/-- Moving to a position of the text. -/
theorem settles_moveTo {s : Session} (hs : s.Valid) {i : Nat} (hi : i ≤ s.text.length) :
  Meets (moveTo i) s Session.Valid fun _ => Session.Valid
  := by
  apply meets_moveTo
  exact ⟨inText_natCast hi, hs.past, hs.future⟩

theorem settles_moveLeft :
  Settles moveLeft
  := by
  apply settles_modify
  intro s hs
  obtain ⟨c, hc, hle⟩ := hs.exists_cursor
  split
  · refine ⟨⟨?_, ?_⟩, hs.past, hs.future⟩
    · dsimp only [Session.now]
      omega
    · apply Int.le_trans (Int.sub_le_self _ Int.one_nonneg) hs.now.2
  · apply hs

theorem settles_moveRight :
  Settles moveRight
  := by
  apply settles_modify
  intro s hs
  split
  · rename_i hlt
    refine ⟨⟨?_, hlt⟩, hs.past, hs.future⟩
    apply Int.le_trans hs.now.1 (Int.le_add_one (Int.le_refl _))
  · apply hs

theorem settles_moveToLine {s : Session} (hs : s.Valid) {i : Nat} (hi : i < s.buffer.lineCount) :
  Meets (moveToLine i) s Session.Valid fun _ => Session.Valid
  := by
  obtain ⟨_, column, hat⟩ := Session.exists_at hs.now
  apply (meets_moveToLine hat hi).imp
  rintro _ _ ⟨row, c, -, rfl, htarget⟩
  refine ⟨?_, hs.past, hs.future⟩
  obtain ⟨n, rfl, hn, -⟩ := htarget.exists_cursor
  apply inText_natCast hn

theorem settles_moveUp :
  Settles moveUp
  := by
  intro s hs
  obtain ⟨c, hc, hle⟩ := hs.exists_cursor
  have hi := Text.count_take_lt_length_rows s.text c
  apply meets_bind
  apply meets_currentLine hc hle
  split
  · apply settles_moveToLine hs
    apply Nat.lt_of_le_of_lt (Nat.sub_le _ _) hi
  · apply settles_pure s hs

theorem settles_moveDown :
  Settles moveDown
  := by
  intro s hs
  obtain ⟨c, hc, hle⟩ := hs.exists_cursor
  apply meets_bind
  apply meets_currentLine hc hle
  apply meets_bind
  apply meets_get
  split
  · rename_i hnext
    apply settles_moveToLine hs hnext
  · apply settles_pure s hs

theorem settles_moveToNextMeasure :
  Settles moveToNextMeasure
  := by
  intro s hs
  obtain ⟨c, hc, hle⟩ := hs.exists_cursor
  have hi := Text.count_take_lt_length_rows s.text c
  apply meets_bind
  apply meets_get
  split
  · rename_i i hfound
    apply settles_moveTo hs (Nat.le_of_lt (Text.indexFrom?_lt hfound))
  · apply meets_bind
    apply meets_currentLine hc hle
    apply meets_bind
    apply meets_lineText hi
    intro r hr
    have hend := Text.length_rowsBefore_add_le hr
    have hdrop := Text.length_dropEndWhile_le (· == '\n') r
    apply meets_bind
    apply meets_lineStart hi
    apply meets_bind
    apply (settles_moveTo hs (i := _ + (Text.dropEndWhile (· == '\n') r).length) (by omega)).imp
    intro _
    apply settles_say

theorem settles_moveToPreviousMeasure :
  Settles moveToPreviousMeasure
  := by
  intro s hs
  obtain ⟨c, hc, hle⟩ := hs.exists_cursor
  apply meets_bind
  apply meets_get
  split
  · split
    · rename_i i hfound
      apply settles_moveTo hs (Nat.le_of_lt (Text.lastIndexBefore?_lt hfound))
    · apply meets_bind
      apply meets_currentLine hc hle
      apply meets_bind
      apply meets_lineStart (Text.count_take_lt_length_rows s.text c)
      apply meets_bind
      apply (settles_moveTo hs (Text.length_rowsBefore_le_length _ _)).imp
      intro _
      apply settles_say
  · apply settles_pure s hs

theorem settles_moveToNextNote :
  Settles moveToNextNote
  := by
  intro s hs
  apply meets_bind
  apply meets_get
  split
  · rename_i i hfound
    apply settles_moveTo hs (Nat.le_of_lt (Text.indexFrom?_lt hfound))
  · apply settles_say _ s hs

theorem settles_moveToPreviousNote :
  Settles moveToPreviousNote
  := by
  intro s hs
  apply meets_bind
  apply meets_get
  split
  · split
    · rename_i i hfound
      apply settles_moveTo hs (Nat.le_of_lt (Text.lastIndexBefore?_lt hfound))
    · apply settles_say _ s hs
  · apply settles_pure s hs

/-- The section of a cursor in the text exists. -/
theorem sectionScore_eq_ok {t : Text} {c : Nat} (hc : c ≤ t.length) :
  ∃ score, Preview.sectionScore t c = .ok score
  := by
  have hline : (Buffer.ofText t).lineAt c = .ok ((t.take c).count '\n') := by
    rw [Buffer.lineAt_eq_ok _ _, Buffer.text_ofText]
    rw [Buffer.length, Buffer.text_ofText]
    apply hc
  exact ⟨_, Preview.sectionScore_eq hline⟩

theorem settles_playFromCursor [Memory] :
  Settles playFromCursor
  := by
  intro s hs
  obtain ⟨c, hc, hle⟩ := hs.exists_cursor
  obtain ⟨score, hscore⟩ := sectionScore_eq_ok hle
  apply meets_bind
  apply meets_get
  apply meets_bind
  rw [hc]
  apply meets_ofBuffer hscore
  apply (rests_playScore _ _ _).settles s hs

theorem settles_gesture [Memory] (g : Gesture) :
  Settles g.action
  := by
  cases g with
  | setDuration duration => apply (rests_setDuration _).settles
  | addDot => apply rests_addDot.settles
  | removeDot => apply rests_removeDot.settles
  | raiseOctave => apply rests_raiseOctave.settles
  | lowerOctave => apply rests_lowerOctave.settles
  | moveLeft => apply settles_moveLeft
  | moveRight => apply settles_moveRight
  | moveUp => apply settles_moveUp
  | moveDown => apply settles_moveDown
  | moveToNextMeasure => apply settles_moveToNextMeasure
  | moveToPreviousMeasure => apply settles_moveToPreviousMeasure
  | moveToNextNote => apply settles_moveToNextNote
  | moveToPreviousNote => apply settles_moveToPreviousNote
  | saveFile => apply rests_saveFile.settles
  | playFile => apply rests_playFile.settles
  | playFromCursor => apply settles_playFromCursor
  | playNote note => apply (rests_playNote _).settles
  | stopPlayback => apply rests_stopPlayback.settles
  | close => apply rests_close.settles

theorem settles_undo :
  Settles undo
  := by
  intro s hs
  apply meets_bind
  apply meets_get
  cases hpast : s.history.past with
  | nil =>
    rw [History.back?, hpast]
    apply settles_say _ s hs
  | cons m past =>
    have hm := hs.past
    rw [hpast] at hm
    rw [History.back?, hpast]
    apply meets_set
    refine ⟨hm m List.mem_cons_self, ?_, ?_⟩
    · intro m' hm'
      apply hm m' (List.mem_cons_of_mem _ hm')
    · intro m' hm'
      obtain rfl | hm' := List.mem_cons.mp hm'
      · apply hs.now
      · apply hs.future m' hm'

theorem settles_redo :
  Settles redo
  := by
  intro s hs
  apply meets_bind
  apply meets_get
  cases hfuture : s.history.future with
  | nil =>
    rw [History.forth?, hfuture]
    apply settles_say _ s hs
  | cons m future =>
    have hm := hs.future
    rw [hfuture] at hm
    rw [History.forth?, hfuture]
    apply meets_set
    refine ⟨hm m List.mem_cons_self, ?_, ?_⟩
    · intro m' hm'
      obtain rfl | hm' := List.mem_cons.mp hm'
      · apply hs.now
      · apply hs.past m' hm'
    · intro m' hm'
      apply hm m' (List.mem_cons_of_mem _ hm')

end Action

end Tunescript
