import Tunescript.Proofs.Editor.CursorRuns
import Tunescript.Proofs.Editor.LinearHistory
import Tunescript.Proofs.Pitch.Names
import Tunescript.Proofs.Pitch.Transposition
import Tunescript.Proofs.Score.Outline
import Tunescript.Proofs.Text.Ranges

/-!
# Transposing a note in its place

The name of a note of the scale is as long as that of any other, and there is nothing in it that a
note is found by.  So a note that is transposed stays where it was, its name is the only thing in
the text that changes, and the cursor is on it as before (`transposes_name`).  It can be transposed
again from there: a name with a sharp or a natural comes back by the transposition in the other
direction.
-/

namespace Tunescript

namespace Pitch

/-- No note is found by a character in a name. -/
theorem not_mem_landmarks {s : Spelling} {pitch : Text} {octave : Int} (hpitch : pitch ∈ s.classes)
    (hoctave : 0 ≤ octave ∧ octave ≤ 7) :
  ∀ c ∈ name pitch octave, c ∉ Score.landmarks
  := by
  have hnone : Score.landmarks.all fun m => !Score.isNameChar m := by
    decide
  intro c hc hmem
  have hname := isNameChar_of_mem_name hpitch hoctave c hc
  have hnot := List.all_eq_true.mp hnone c hmem
  rw [hname] at hnot
  cases hnot

end Pitch

namespace Session

variable {s t : Session} {delta : Int} {span : Span} {name pitch pitch' : Text}
  {octave octave' : Int}

/-- A transposition puts the name in the place of the span, whether or not the note can be played
then. -/
theorem Transposes.perform [Memory] (h : s.Transposes delta span name) :
  (s.perform (.edit (.transposeNote delta))).text =
      s.text.take span.start ++ name ++ s.text.drop span.stop ∧
    (s.perform (.edit (.transposeNote delta))).cursor = s.cursor
  := by
  apply Action.Meets.after (E := fun t : Session =>
    t.text = s.text.take span.start ++ name ++ s.text.drop span.stop ∧ t.cursor = s.cursor)
  apply Action.meets_transposeNote_splice h
  intro t hcursor _ htext
  use htext, hcursor

/-- The pitch at the cursor is a note of the scale, with its name. -/
structure OnNote (s : Session) (span : Span) (pitch : Text) (octave : Int) : Prop where
  /-- The pitch is found. -/
  found : Score.pitchAt? s.text s.cursor = some span
  /-- It has the name. -/
  named : s.buffer.slice span.start (some span.stop) = Pitch.name pitch octave
  /-- The pitch class belongs to a spelling. -/
  spelled : pitch ∈ Spelling.sharps.classes ∨ pitch ∈ Spelling.flats.classes
  /-- The octave is one of the scale. -/
  scale : 0 ≤ octave ∧ octave ≤ 7

namespace OnNote

theorem exists_mem_classes (h : s.OnNote span pitch octave) :
  ∃ p : Spelling, pitch ∈ p.classes
  := by
  obtain hsharp | hflat := h.spelled
  · use .sharps
  · use .flats

/-- The name stands in the text at the span. -/
theorem range_eq (h : s.OnNote span pitch octave) :
  (s.text.take span.stop).drop span.start = Pitch.name pitch octave
  := by
  obtain ⟨hstart, hstop⟩ := Score.pitchAt?_within h.found
  rw [← h.named]
  symm
  apply Text.slice_natCast _ (Nat.le_trans hstart hstop) hstop

theorem stop_eq (h : s.OnNote span pitch octave) :
  span.stop = span.start + 4
  := by
  obtain ⟨hstart, hstop⟩ := Score.pitchAt?_within h.found
  obtain ⟨p, hp⟩ := h.exists_mem_classes
  have hlength := congrArg List.length h.range_eq
  rw [Pitch.length_name hp h.scale, List.length_drop, List.length_take] at hlength
  omega

theorem transposes (h : s.OnNote span pitch octave)
    (htranspose : Pitch.transpose pitch octave delta = .ok (pitch', octave')) :
  s.Transposes delta span (Pitch.name pitch' octave')
  := by
  obtain ⟨p, hp⟩ := h.exists_mem_classes
  use pitch, octave, pitch', octave', h.found
  rw [h.named]
  use Pitch.split?_name hp h.scale, htranspose

/-- The search for notes sees the same text after a transposition. -/
theorem outline_perform [Memory] (h : s.OnNote span pitch octave)
    (htranspose : Pitch.transpose pitch octave delta = .ok (pitch', octave')) :
  Score.outline (s.perform (.edit (.transposeNote delta))).text = Score.outline s.text
  := by
  obtain ⟨hstart, -⟩ := Score.pitchAt?_within h.found
  obtain ⟨p, hp⟩ := h.exists_mem_classes
  obtain ⟨p', -, hp', hoctave'⟩ := Pitch.scale_of_transpose htranspose
  have hlength : (Pitch.name pitch' octave').length = (Pitch.name pitch octave).length := by
    rw [Pitch.length_name hp h.scale, Pitch.length_name hp' hoctave']
  rw [(h.transposes htranspose).perform.1,
    Score.outline_splice (Pitch.not_mem_landmarks hp' hoctave')
      (Pitch.not_mem_landmarks hp h.scale) hlength, ← h.range_eq, Text.take_append_range _ hstart]

/-- After a transposition the cursor is on the transposed note, in the same place. -/
theorem perform [Memory] (h : s.OnNote span pitch octave)
    (htranspose : Pitch.transpose pitch octave delta = .ok (pitch', octave')) :
  (s.perform (.edit (.transposeNote delta))).OnNote span pitch' octave'
  := by
  obtain ⟨hstart, hstop⟩ := Score.pitchAt?_within h.found
  obtain ⟨p', -, hp', hoctave'⟩ := Pitch.scale_of_transpose htranspose
  obtain ⟨htext, hcursor⟩ := (h.transposes htranspose).perform
  have hspan : Score.pitchAt? (s.perform (.edit (.transposeNote delta))).text
      (s.perform (.edit (.transposeNote delta))).cursor = some span := by
    rw [← Score.pitchAt?_outline, h.outline_perform htranspose, Score.pitchAt?_outline, hcursor,
      h.found]
  have hfront : (s.text.take span.start).length = span.start := by
    rw [List.length_take, Nat.min_eq_left (Nat.le_trans hstart hstop)]
  have hrange := Text.slice_append (s.text.take span.start) (Pitch.name pitch' octave')
    (s.text.drop span.stop)
  rw [← htext, hfront, Pitch.length_name hp' hoctave', ← h.stop_eq] at hrange
  constructor
  · apply hspan
  · apply hrange
  · cases p' with
    | sharps => apply Or.inl hp'
    | flats => apply Or.inr hp'
  · apply hoctave'

end OnNote

/-- Transposing a note of the scale changes its name and nothing else.  The four characters of the
name make place for those of the new one, the cursor stays, and the note and the pitch at the cursor
are found where they were.  If the name has a sharp or is a natural, the transposition in the other
direction restores the text. -/
theorem transposes_name [Memory] (h : s.OnNote span pitch octave)
    (htranspose : Pitch.transpose pitch octave delta = .ok (pitch', octave')) :
  let t := s.perform (.edit (.transposeNote delta))
  span.stop = span.start + 4 ∧ span.stop ≤ s.text.length ∧ (Pitch.name pitch' octave').length = 4 ∧
  t.text = s.text.take span.start ++ Pitch.name pitch' octave' ++ s.text.drop span.stop ∧
  t.cursor = s.cursor ∧
  Score.noteAt? t.text t.cursor = Score.noteAt? s.text s.cursor ∧
  Score.pitchAt? t.text t.cursor = Score.pitchAt? s.text s.cursor ∧
  (pitch ∈ Spelling.sharps.classes →
    (t.perform (.edit (.transposeNote (-delta)))).text = s.text)
  := by
  intro t
  obtain ⟨hstart, hstop⟩ := Score.pitchAt?_within h.found
  obtain ⟨p, hp, hp', hoctave'⟩ := Pitch.scale_of_transpose htranspose
  obtain ⟨htext, hcursor⟩ := (h.transposes htranspose).perform
  have houtline := h.outline_perform htranspose
  have hlength := Pitch.length_name hp' hoctave'
  use h.stop_eq, hstop, hlength, htext, hcursor
  refine ⟨?_, ?_, ?_⟩
  · rw [hcursor, ← Score.noteAt?_outline, houtline, Score.noteAt?_outline]
  · rw [hcursor, ← Score.pitchAt?_outline, houtline, Score.pitchAt?_outline]
  · intro hsharp
    have hspelling := (Spelling.of?_eq_some_iff.mp hp).2.mpr hsharp
    obtain ⟨hback, -⟩ := Pitch.transpose_neg hp (Pitch.height?_eq hp octave) htranspose
    obtain ⟨r, hr, -, hsame⟩ := hback h.scale
    rw [hsame hspelling] at hr
    have hroom : span.start + (Pitch.name pitch' octave').length = span.stop := by
      rw [hlength, h.stop_eq]
    have hstart' : span.start ≤ s.text.length := Nat.le_trans hstart hstop
    rw [((h.perform htranspose).transposes hr).perform.1, htext, Text.take_splice hstart',
      Text.drop_splice hstart' hroom, ← h.range_eq, Text.take_append_range _ hstart]

/-- A session on the last B below the middle C, behind a parenthesis that opens nothing. -/
def strayNote : Session :=
    { blank with buffer := Buffer.ofText "((Bn_3 1/4)+".toList, cursor := 10 }

theorem onNote_strayNote :
  strayNote.OnNote ⟨2, 6⟩ "Bn".toList 3
  := by
  constructor
  · decide +kernel
  · decide +kernel
  · apply Or.inl
    decide
  · decide

attribute [local instance] Memory.sixteenGigabytes in
/-- From its closing parenthesis the B is raised to the middle C and lowered again. -/
theorem transposes_name_strayNote :
  strayNote.OnNote ⟨2, 6⟩ "Bn".toList 3 ∧ Pitch.transpose "Bn".toList 3 1 = .ok ("Cn".toList, 4) ∧
    (strayNote.perform (.edit (.transposeNote 1))).text = "((Cn_4 1/4)+".toList ∧
    (strayNote.run [.edit (.transposeNote 1), .edit (.transposeNote (-1))]).text = strayNote.text
  := by
  have htranspose : Pitch.transpose "Bn".toList 3 1 = .ok ("Cn".toList, 4) := by
    decide
  obtain ⟨-, -, -, htext, -, -, -, hback⟩ := transposes_name onNote_strayNote htranspose
  refine ⟨onNote_strayNote, htranspose, ?_, hback (by decide)⟩
  rw [htext]
  decide +kernel

end Session

end Tunescript
