import Tunescript.Proofs.Editor.CursorRuns
import Tunescript.Proofs.Editor.LinearHistory

/-!
# Refused transpositions

A transposition is refused if there is no pitch at the cursor, if what stands there is no name of a
note, or if there is no note so many semitones away (`Session.Refuses`); else it transposes
(`refuses_iff`).  A refused transposition is a step of the history like any other edit: it leaves
the text and the cursor alone, but the moment is recorded once more, and what could be redone is
forgotten (`history_of_refuses`).  So as many undos as there were refused transpositions show
nothing but the same text (`run_undo_of_refuses`).
-/

namespace Tunescript

namespace Session

variable {s t : Session} {delta : Int} {message : String}

/-- Whether a transposition is refused depends on the text and the cursor alone. -/
theorem Refuses.of_eq (h : s.Refuses delta message) (hbuffer : t.buffer = s.buffer)
    (hcursor : t.cursor = s.cursor) :
  ∃ message, t.Refuses delta message
  := by
  rw [refuses_iff]
  rintro ⟨span, name, pitch, octave, pitch', octave', hspan, hsplit, htranspose, hname⟩
  rw [text, hbuffer, ← text, hcursor] at hspan
  rw [hbuffer] at hsplit
  exact (refuses_iff s delta).mp ⟨message, h⟩
    ⟨span, name, pitch, octave, pitch', octave', hspan, hsplit, htranspose, hname⟩

/-- A refused transposition does not fail.  It records the moment and gives its message, and that is
all. -/
theorem perform?_of_refuses [Memory] (h : s.Refuses delta message) :
  s.perform? (.edit (.transposeNote delta)) =
    some { s with history := s.history.record s.now, message := message }
  := by
  have hmeets := Action.meets_transposeNote_of_refuses h
  rw [perform?, Operation.action, Edit.action]
  rw [Action.Meets] at hmeets
  cases hrun : EStateM.run (Action.transposeNote delta) s with
  | ok x t =>
    rw [hrun] at hmeets
    rw [hmeets]
  | error e t =>
    rw [hrun] at hmeets
    cases hmeets.2

/-- Behind refused transpositions the text and the cursor are what they were, and the moment has
been recorded once for each of them. -/
theorem run_of_refuses [Memory] {deltas : List Int}
    (h : ∀ delta ∈ deltas, ∃ message, s.Refuses delta message) :
  let t := s.run (deltas.map fun delta => .edit (.transposeNote delta))
  t.buffer = s.buffer ∧ t.cursor = s.cursor ∧
    t.history.past = List.replicate deltas.length s.now ++ s.history.past
  := by
  induction deltas generalizing s with
  | nil => exact ⟨rfl, rfl, rfl⟩
  | cons delta deltas ih =>
    obtain ⟨⟨message, hfirst⟩, hrest⟩ := List.forall_mem_cons.mp h
    let t : Session := { s with history := s.history.record s.now, message := message }
    have hstep : s.perform (.edit (.transposeNote delta)) = t :=
      perform_eq_of_perform? (perform?_of_refuses hfirst)
    have ht : ∀ delta ∈ deltas, ∃ message, t.Refuses delta message := by
      intro d hd
      obtain ⟨m, hrefuses⟩ := hrest d hd
      exact hrefuses.of_eq rfl rfl
    obtain ⟨hbuffer, hcursor, hpast⟩ := ih ht
    rw [List.map_cons, run, List.foldl_cons, hstep]
    refine ⟨hbuffer, hcursor, hpast.trans ?_⟩
    rw [List.length_cons, List.replicate_succ', List.append_assoc]
    rfl

/-- So many undos as there were refused transpositions bring back nothing but the present moment. -/
theorem run_undo_of_refuses [Memory] {deltas : List Int}
    (h : ∀ delta ∈ deltas, ∃ message, s.Refuses delta message) {k : Nat} (hk : k ≤ deltas.length) :
  ((s.run (deltas.map fun delta => .edit (.transposeNote delta))).run
    (List.replicate k .undo)).now = s.now
  := by
  obtain ⟨hbuffer, hcursor, hpast⟩ := run_of_refuses h
  generalize s.run (deltas.map fun delta => .edit (.transposeNote delta)) = t at *
  have hnow : t.now = s.now := by rw [now, now, hbuffer, hcursor]
  apply now_eq_of_timeline (timeline_run_undo t k)
  rw [timeline, hpast, hnow, List.reverse_append, List.append_assoc, List.reverse_replicate,
    List.length_append, List.length_replicate]
  dsimp only
  have hsplit : deltas.length + s.history.past.length - k =
      s.history.past.reverse.length + (deltas.length - k) := by
    rw [List.length_reverse]
    omega
  rw [hsplit, List.getElem?_append_right (Nat.le_add_right _ _), Nat.add_sub_cancel_left]
  cases k with
  | zero => simp
  | succ k =>
    rw [List.getElem?_append_left (by rw [List.length_replicate]; omega),
      List.getElem?_replicate_of_lt (by omega)]

/-- A refused transposition leaves the text and the cursor alone, but not the history: there is one
more step to undo, which brings back the same moment, and nothing is left to redo. -/
theorem history_of_refuses [Memory] (h : s.Refuses delta message) :
  ∃ t, s.perform? (.edit (.transposeNote delta)) = some t ∧
    t.text = s.text ∧ t.cursor = s.cursor ∧ t.message = message ∧
    t.history.past = s.now :: s.history.past ∧ t.history.past ≠ s.history.past ∧
    t.history.future = [] ∧ (t.history.future = s.history.future ↔ s.history.future = []) ∧
    ∃ u, t.run? [.undo] = some u ∧ u.text = s.text ∧ u.cursor = s.cursor ∧
      u.history.past = s.history.past
  := by
  refine ⟨_, perform?_of_refuses h, rfl, rfl, rfl, rfl, List.cons_ne_self _ _, rfl, eq_comm, ?_⟩
  generalize ht : { s with history := s.history.record s.now, message := message } = t
  have hpast : t.history.past = s.now :: s.history.past := by
    rw [← ht]
    rfl
  obtain ⟨hnow, hhistory⟩ := undo_of_past_cons hpast
  refine ⟨t.perform .undo, ?_, text_eq_of_now_eq hnow, cursor_eq_of_now_eq hnow, ?_⟩
  · rw [run?, perform?_undo]
    rfl
  · rw [hhistory]

/-- A session with one note in it. -/
def oneNote : Session := { blank with buffer := Buffer.ofText "(Cn_4 1/4)".toList }

/-- No note of the scale lies a hundred semitones above that note. -/
theorem refuses_oneNote (hbuffer : s.buffer = oneNote.buffer) (hcursor : s.cursor = 2) :
  s.Refuses 100 "Transposition out of octave range"
  := by
  have hspan : Score.pitchAt? s.text s.cursor = some ⟨1, 5⟩ := by
    rw [text, hbuffer, hcursor]
    decide +kernel
  have hsplit : Pitch.split? (s.buffer.slice 1 (some 5)) = some ("Cn".toList, 4) := by
    rw [hbuffer]
    decide +kernel
  have htranspose : Pitch.transpose "Cn".toList 4 100 = .error .outOfRange := by
    decide
  exact .noNote hspan hsplit htranspose

attribute [local instance] Memory.sixteenGigabytes in
/-- A transposition that would leave the scale is refused and leaves the text. -/
theorem history_of_refuses_outOfRange :
  let s := oneNote.perform (.place 2)
  ∃ t, s.Refuses 100 "Transposition out of octave range" ∧
    s.perform? (.edit (.transposeNote 100)) = some t ∧
    t.text = s.text ∧ t.message = "Transposition out of octave range"
  := by
  intro s
  have hrefuses : s.Refuses 100 "Transposition out of octave range" := refuses_oneNote rfl rfl
  obtain ⟨t, ht, htext, -, hmessage, -⟩ := history_of_refuses hrefuses
  exact ⟨t, hrefuses, ht, htext, hmessage⟩

attribute [local instance] Memory.sixteenGigabytes in
/-- A text that was typed and taken back could be typed again, until a transposition is refused. -/
theorem not_history_of_refuses_redo :
  let s := oneNote.run [.edit (.insertChar ['x']), .undo, .place 2]
  0 ≤ s.cursor ∧ s.cursor ≤ s.text.length ∧
    ∃ t, s.Refuses 100 "Transposition out of octave range" ∧
      s.perform? (.edit (.transposeNote 100)) = some t ∧ t.text = s.text ∧ t.cursor = s.cursor ∧
      s.history.past = [] ∧ t.history.past = [s.now] ∧
      (s.perform .redo).text = "x(Cn_4 1/4)".toList ∧ (t.perform .redo).text = "(Cn_4 1/4)".toList
  := by
  intro s
  have hrefuses : s.Refuses 100 "Transposition out of octave range" := refuses_oneNote rfl rfl
  refine ⟨by decide +kernel, by decide +kernel, _, hrefuses, perform?_of_refuses hrefuses,
    rfl, rfl, ?_⟩
  exact ⟨by decide +kernel, by decide +kernel, by decide +kernel, by decide +kernel⟩

end Session

end Tunescript
