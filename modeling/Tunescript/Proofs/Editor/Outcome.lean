import Tunescript.Editor.Edits
import Tunescript.Editor.Moves
import Tunescript.Proofs.Editor.BufferText

/-!
# Outcomes of actions

`Action.Meets` says what an action does at a session: either it succeeds with a result and a
session that meet a condition, or it fails at a session that meets another one, and then not
because a position or a line does not exist.  Each step of an action has its rule, and the rules
of a sequence, a choice and a weaker condition put them together.  `Action.Rests` says that an
action leaves the text, the cursor and the history alone, also when it fails.
-/

namespace Tunescript

/-- Whether a failure is that of a position or a line that does not exist. -/
def SessionError.isPosition : SessionError → Bool
  | .buffer _ => true
  | _ => false

namespace Session

variable {s t : Session}

/-- The other session has the same text, cursor and history. -/
structure SameMoment (s t : Session) : Prop where
  /-- The text and the cursor are the same. -/
  now : t.now = s.now
  /-- The history is the same. -/
  history : t.history = s.history

theorem text_eq_of_now_eq (h : s.now = t.now) :
  s.text = t.text
  := congrArg (fun m => m.1.flatten) h

theorem cursor_eq_of_now_eq (h : s.now = t.now) :
  s.cursor = t.cursor
  := congrArg Prod.snd h

end Session

namespace Action

variable {α β : Type}

/-- The session that an action leaves, also when it fails. -/
def after (a : Action α) (s : Session) : Session :=
  match EStateM.run a s with
  | .ok _ t => t
  | .error _ t => t

/-- The action succeeds with a result and a session in `Q`, or fails at a session in `E`, but
not by a position or line that does not exist. -/
def Meets (a : Action α) (s : Session) (E : Session → Prop) (Q : α → Session → Prop) : Prop :=
  match EStateM.run a s with
  | .ok x t => Q x t
  | .error e t => e.isPosition = false ∧ E t

/-- The action leaves the text, the cursor and the history alone and asks for no position. -/
def Rests (a : Action α) : Prop := ∀ s : Session, a.Meets s s.SameMoment fun _ => s.SameMoment

/-- What inserting a checkpoint ends with: its stars, and two lines opened below them. -/
def drawCheckpoint [Memory] (length : Int) : Action Unit := do
  match Capacity.ofText length with
  | .error f => throw (.arithmetic f)
  | .ok stars => putSnippet (List.replicate stars Score.checkpointMark)
  openLine
  openLine
  say "Inserted checkpoint"

section Meets

variable {s : Session} {E : Session → Prop}

theorem meets_pure {x : α} {Q : α → Session → Prop} (h : Q x s) :
  Meets (pure x) s E Q
  := h

theorem meets_get {Q : Session → Session → Prop} (h : Q s s) :
  Meets get s E Q
  := h

theorem meets_modify {f : Session → Session} {Q : Unit → Session → Prop} (h : Q () (f s)) :
  Meets (modify f) s E Q
  := h

theorem meets_set {t : Session} {Q : Unit → Session → Prop} (h : Q () t) :
  Meets (set t) s E Q
  := h

theorem meets_throw {e : SessionError} {Q : α → Session → Prop} (he : e.isPosition = false)
    (h : E s) :
  Meets (throw e) s E Q
  := ⟨he, h⟩

theorem meets_bind {a : Action α} {f : α → Action β} {Q : β → Session → Prop}
    (h : a.Meets s E fun x t => (f x).Meets t E Q) :
  (a >>= f).Meets s E Q
  := by
  rw [Meets] at *
  rw [EStateM.run_bind]
  cases ha : EStateM.run a s with
  | ok x t =>
    rw [ha] at h
    apply h
  | error e t =>
    rw [ha] at h
    apply h

theorem Meets.mono {a : Action α} {F : Session → Prop} {Q R : α → Session → Prop}
    (h : a.Meets s E Q) (hE : ∀ t, E t → F t) (hQ : ∀ x t, Q x t → R x t) :
  a.Meets s F R
  := by
  rw [Meets] at *
  cases ha : EStateM.run a s with
  | ok x t =>
    rw [ha] at h
    apply hQ x t h
  | error e t =>
    rw [ha] at h
    exact ⟨h.1, hE t h.2⟩

theorem Meets.imp {a : Action α} {Q R : α → Session → Prop} (h : a.Meets s E Q)
    (hQ : ∀ x t, Q x t → R x t) :
  a.Meets s E R
  := h.mono (fun _ ht => ht) hQ

/-- What holds of every outcome holds of the session that is left. -/
theorem Meets.after {a : Action α} (h : a.Meets s E fun _ => E) :
  E (a.after s)
  := by
  rw [Meets] at h
  rw [Action.after]
  cases ha : EStateM.run a s with
  | ok x t =>
    rw [ha] at h
    apply h
  | error e t =>
    rw [ha] at h
    apply h.2

theorem Meets.isPosition_eq_false {a : Action α} {Q : α → Session → Prop} (h : a.Meets s E Q)
    {e : SessionError} {t : Session} (ha : EStateM.run a s = .error e t) :
  e.isPosition = false
  := by
  rw [Meets, ha] at h
  apply h.1

theorem meets_ofBuffer {x : Except BufferError α} {y : α} {Q : α → Session → Prop}
    (hx : x = .ok y) (h : Q y s) :
  Meets (ofBuffer x) s E Q
  := by
  rw [hx]
  apply h

theorem meets_say {message : String} {Q : Unit → Session → Prop}
    (h : Q () { s with message := message }) :
  Meets (say message) s E Q
  := h

theorem meets_moveTo {cursor : Int} {Q : Unit → Session → Prop}
    (h : Q () { s with cursor := cursor }) :
  Meets (moveTo cursor) s E Q
  := h

/-- A text is put in at a position of the text. -/
theorem meets_insertAt {i : Nat} {t : Text} {Q : Unit → Session → Prop}
    (hi : i ≤ s.text.length)
    (h : ∀ b : Buffer, b.text = s.text.take i ++ t ++ s.text.drop i →
      b.text.length = s.text.length + t.length → Q () { s with buffer := b }) :
  Meets (insertAt i t) s E Q
  := by
  obtain ⟨b, hb, htext⟩ := s.buffer.insert_eq_ok hi t
  apply meets_bind
  apply meets_get
  apply meets_bind
  apply meets_ofBuffer hb
  apply meets_modify
  apply h b htext
  rw [htext]
  simp only [List.length_append, List.length_take, List.length_drop, Session.text]
  rw [Session.text] at hi
  omega

/-- A range of the text is taken out. -/
theorem meets_removeRange {start stop : Nat} {Q : Unit → Session → Prop}
    (hle : start ≤ stop) (hstop : stop ≤ s.text.length)
    (h : ∀ b : Buffer, b.text = s.text.take start ++ s.text.drop stop →
      b.text.length + stop = s.text.length + start → Q () { s with buffer := b }) :
  Meets (removeRange start stop) s E Q
  := by
  obtain ⟨b, hb, htext⟩ := s.buffer.remove_eq_ok hle hstop
  apply meets_bind
  apply meets_get
  apply meets_bind
  apply meets_ofBuffer hb
  apply meets_modify
  apply h b htext
  rw [htext]
  simp only [List.length_append, List.length_take, List.length_drop, Session.text]
  rw [Session.text] at hstop
  omega

/-- A text is put in at a cursor in the text, and the cursor goes behind it. -/
theorem meets_putSnippet {c : Nat} {t : Text} {Q : Unit → Session → Prop} (hc : s.cursor = c)
    (hle : c ≤ s.text.length)
    (h : ∀ (b : Buffer) (message : String), b.text = s.text.take c ++ t ++ s.text.drop c →
      b.text.length = s.text.length + t.length →
      Q () { s with buffer := b, cursor := (c + t.length : Nat), message := message }) :
  Meets (putSnippet t) s E Q
  := by
  apply meets_bind
  apply meets_get
  rw [hc]
  apply meets_bind
  apply meets_insertAt hle
  intro b hb hlen
  apply meets_bind
  apply meets_modify
  apply meets_say
  dsimp only
  rw [hc]
  apply h b _ hb hlen

/-- The line of a cursor in the text exists. -/
theorem meets_currentLine {c : Nat} {Q : Nat → Session → Prop} (hc : s.cursor = c)
    (hle : c ≤ s.text.length) (h : Q ((s.text.take c).count '\n') s) :
  Meets currentLine s E Q
  := by
  apply meets_bind
  apply meets_get
  rw [hc]
  apply meets_ofBuffer (s.buffer.lineAt_eq_ok hle)
  apply h

theorem meets_lineText {i : Nat} {Q : Text → Session → Prop} (hi : i < s.buffer.lineCount)
    (h : ∀ r, (Text.rows s.text)[i]? = some r → Q r s) :
  Meets (lineText i) s E Q
  := by
  obtain ⟨r, hr, hrow⟩ := s.buffer.line_eq_ok hi
  apply meets_bind
  apply meets_get
  apply meets_ofBuffer hr
  apply h r hrow

theorem meets_lineStart {i : Nat} {Q : Nat → Session → Prop} (hi : i < s.buffer.lineCount)
    (h : Q (Text.rowsBefore s.text i).length s) :
  Meets (lineStart i) s E Q
  := by
  apply meets_bind
  apply meets_get
  apply meets_ofBuffer (s.buffer.lineStart_eq_ok hi)
  apply h

end Meets

section Rests

theorem rests_pure (x : α) :
  Rests (pure x)
  := fun _ => ⟨rfl, rfl⟩

theorem rests_throw {e : SessionError} (he : e.isPosition = false) :
  Rests (throw e : Action α)
  := fun _ => ⟨he, rfl, rfl⟩

theorem rests_modify {f : Session → Session} (h : ∀ s : Session, s.SameMoment (f s)) :
  Rests (modify f)
  := h

theorem rests_set {s t : Session} (h : s.SameMoment t) {a : Action α} (ha : a.Rests) :
  Meets (set t >>= fun _ => a) s s.SameMoment fun _ => s.SameMoment
  := by
  apply meets_bind
  apply meets_set
  apply (ha t).mono
  · intro u hu
    exact ⟨hu.now.trans h.now, hu.history.trans h.history⟩
  · intro _ u hu
    exact ⟨hu.now.trans h.now, hu.history.trans h.history⟩

theorem rests_bind {a : Action α} {f : α → Action β} (ha : a.Rests) (hf : ∀ x, (f x).Rests) :
  (a >>= f).Rests
  := by
  intro s
  apply meets_bind
  apply (ha s).imp
  intro x t ht
  apply (hf x t).mono
  · intro u hu
    exact ⟨hu.now.trans ht.now, hu.history.trans ht.history⟩
  · intro _ u hu
    exact ⟨hu.now.trans ht.now, hu.history.trans ht.history⟩

theorem rests_say (message : String) :
  Rests (say message)
  := fun _ => ⟨rfl, rfl⟩

theorem rests_stopPlayback :
  Rests stopPlayback
  := by
  intro s
  apply meets_bind
  apply meets_get
  apply rests_set
  · exact ⟨rfl, rfl⟩
  · split
    · apply rests_say
    · apply rests_pure

theorem rests_playScore [Memory] (score : Text) (fileName message : String) :
  Rests (playScore score fileName message)
  := by
  intro s
  apply meets_bind
  apply meets_get
  dsimp only
  split
  · apply rests_say
  · apply rests_say
  · apply rests_throw rfl
  · apply rests_say
  · apply rests_throw rfl
  · apply rests_set
    · exact ⟨rfl, rfl⟩
    · apply rests_bind rests_stopPlayback
      intro _
      apply rests_bind (rests_say message)
      intro _ t
      apply meets_bind
      apply meets_get
      apply rests_set
      · exact ⟨rfl, rfl⟩
      · split
        · apply rests_pure
        · apply rests_say

theorem rests_playNote [Memory] (note : Text) :
  Rests (playNote note)
  := by
  intro s
  apply meets_bind
  apply meets_get
  apply rests_playScore

theorem rests_setDuration (duration : Text) :
  Rests (setDuration duration)
  := rests_modify fun _ => ⟨rfl, rfl⟩

theorem rests_addDot :
  Rests addDot
  := rests_modify fun _ => ⟨rfl, rfl⟩

theorem rests_removeDot :
  Rests removeDot
  := by
  apply rests_modify
  intro s
  split
  · exact ⟨rfl, rfl⟩
  · exact ⟨rfl, rfl⟩

theorem rests_setOctave (octave : Int) :
  Rests (setOctave octave)
  := rests_modify fun _ => ⟨rfl, rfl⟩

theorem rests_raiseOctave :
  Rests raiseOctave
  := by
  intro s
  apply meets_bind
  apply meets_get
  dsimp only
  split
  · apply rests_setOctave
  · apply rests_pure

theorem rests_lowerOctave :
  Rests lowerOctave
  := by
  intro s
  apply meets_bind
  apply meets_get
  dsimp only
  split
  · apply rests_setOctave
  · apply rests_pure

theorem rests_saveFile :
  Rests saveFile
  := by
  intro s
  apply meets_bind
  apply meets_get
  split
  · apply rests_say
  · split
    · apply rests_throw
      split <;> rfl
    · apply rests_set
      · exact ⟨rfl, rfl⟩
      · apply rests_say

theorem rests_playFile [Memory] :
  Rests playFile
  := by
  intro s
  apply meets_bind
  apply meets_get
  apply rests_playScore

theorem rests_close :
  Rests close
  := rests_modify fun _ => ⟨rfl, rfl⟩

end Rests

end Action

end Tunescript
