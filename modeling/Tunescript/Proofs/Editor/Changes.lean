import Mathlib.Logic.Relation
import Tunescript.Proofs.Editor.Operation

/-!
# What operations change

Besides the history, an operation changes a session step by step: the page with its text, cursor and
message, or the player, which it stops or starts (`Session.Change`).  An edit records the present
moment in the history first and makes changes then (`Action.edits_action`), and a gesture makes
changes only (`Action.changes_gesture`).  This holds as well of operations that fail on the way.
-/

namespace Tunescript

open Relation

/-- A change of a session apart from its history. -/
inductive Session.Change : Session → Session → Prop where
  /-- Anything changes but the history and the player. -/
  | page {s t : Session} (history : t.history = s.history) (player : t.player = s.player) :
    Change s t
  /-- The player is stopped. -/
  | stop (s : Session) : Change s { s with player := s.player.stop.2 }
  /-- The player is started with a file. -/
  | start (s : Session) (file : Text) : Change s { s with player := (s.player.start file).2 }

namespace Action

variable {α β : Type}

/-- The action makes some changes one after the other, also when it fails. -/
def Changes (a : Action α) : Prop := ∀ s, ReflTransGen Session.Change s (a.after s)

section Rules

theorem changes_pure (x : α) :
  Changes (pure x)
  := fun _ => .refl

theorem changes_get :
  Changes get
  := fun _ => .refl

theorem changes_throw (e : SessionError) :
  Changes (throw e : Action α)
  := fun _ => .refl

theorem changes_modify {f : Session → Session} (h : ∀ s, Session.Change s (f s)) :
  Changes (modify f)
  := fun s => .single (h s)

theorem changes_bind {a : Action α} {f : α → Action β} (ha : a.Changes) (hf : ∀ x, (f x).Changes) :
  (a >>= f).Changes
  := by
  intro s
  have hs := ha s
  rw [after] at *
  rw [EStateM.run_bind]
  cases hrun : EStateM.run a s with
  | ok x t =>
    rw [hrun] at hs
    have ht := hf x t
    rw [after] at ht
    apply hs.trans ht
  | error e t =>
    rw [hrun] at hs
    apply hs

theorem changes_ite {c : Prop} [Decidable c] {a b : Action α} (ha : a.Changes) (hb : b.Changes) :
  Changes (if c then a else b)
  := by
  split
  · apply ha
  · apply hb

theorem changes_ofBuffer (x : Except BufferError α) :
  Changes (ofBuffer x)
  := by
  cases x
  · apply changes_throw
  · apply changes_pure

/-- The session that an action starts with is read. -/
theorem after_get {s : Session} {k : Session → Action α}
    (h : ReflTransGen Session.Change s ((k s).after s)) :
  ReflTransGen Session.Change s ((get >>= k).after s)
  := h

/-- The session that an action starts with is put back with a change. -/
theorem after_set {s t : Session} {a : Action α} (h : Session.Change s t) (ha : a.Changes) :
  ReflTransGen Session.Change s ((set t >>= fun _ => a).after s)
  := ReflTransGen.head h (ha t)

end Rules

theorem changes_stopPlayback :
  Changes stopPlayback
  := by
  intro s
  apply after_set (.stop s)
  apply changes_ite
  · apply changes_modify
    intro s
    exact .page rfl rfl
  · apply changes_pure

theorem changes_say (message : String) :
  Changes (say message)
  := changes_modify fun _ => .page rfl rfl

theorem changes_playScore [Memory] (score : Text) (fileName message : String) :
  Changes (playScore score fileName message)
  := by
  intro s
  apply after_get
  dsimp only
  split
  · apply changes_say
  · apply changes_say
  · apply changes_throw
  · apply changes_say
  · apply changes_throw
  · apply after_set
    · exact .page rfl rfl
    · apply changes_bind changes_stopPlayback
      intro _
      apply changes_bind (changes_say message)
      intro _ s
      apply after_get
      apply after_set (.start s _)
      split
      · apply changes_pure
      · apply changes_say

theorem changes_playNote [Memory] (note : Text) :
  Changes (playNote note)
  := by
  apply changes_bind changes_get
  intro s
  apply changes_playScore

theorem changes_moveTo (cursor : Int) :
  Changes (moveTo cursor)
  := changes_modify fun _ => .page rfl rfl

theorem changes_insertAt (i : Int) (t : Text) :
  Changes (insertAt i t)
  := by
  apply changes_bind changes_get
  intro s
  apply changes_bind (changes_ofBuffer _)
  intro b
  apply changes_modify
  intro s
  exact .page rfl rfl

theorem changes_removeRange (start stop : Int) :
  Changes (removeRange start stop)
  := by
  apply changes_bind changes_get
  intro s
  apply changes_bind (changes_ofBuffer _)
  intro b
  apply changes_modify
  intro s
  exact .page rfl rfl

theorem changes_currentLine :
  Changes currentLine
  := by
  apply changes_bind changes_get
  intro s
  apply changes_ofBuffer

theorem changes_lineText (i : Nat) :
  Changes (lineText i)
  := by
  apply changes_bind changes_get
  intro s
  apply changes_ofBuffer

theorem changes_lineStart (i : Nat) :
  Changes (lineStart i)
  := by
  apply changes_bind changes_get
  intro s
  apply changes_ofBuffer

theorem changes_openLine :
  Changes openLine
  := by
  apply changes_bind changes_currentLine
  intro i
  apply changes_bind (changes_lineText i)
  intro line
  apply changes_bind (changes_lineStart i)
  intro start
  apply changes_bind (changes_insertAt _ _)
  intro _
  apply changes_moveTo

theorem changes_prepareLine :
  Changes prepareLine
  := by
  apply changes_bind changes_currentLine
  intro i
  apply changes_bind (changes_lineText i)
  intro line
  apply changes_ite
  · apply changes_bind (changes_lineStart i)
    intro start
    apply changes_ite
    · apply changes_bind (changes_removeRange _ _)
      intro _
      apply changes_moveTo
    · apply changes_moveTo
  · apply changes_openLine

theorem changes_putSnippet (t : Text) :
  Changes (putSnippet t)
  := by
  apply changes_bind changes_get
  intro s
  apply changes_bind (changes_insertAt _ _)
  intro _
  apply changes_bind
  · apply changes_modify
    intro s
    exact .page rfl rfl
  intro _
  apply changes_say

theorem changes_keepCursor :
  Changes keepCursor
  := changes_modify fun _ => .page rfl rfl

/-- The action records the present moment in the history and makes some changes then. -/
def Edits (a : Action Unit) : Prop := ∃ b : Action Unit, b.Changes ∧ a = edit b

theorem edits_edit {b : Action Unit} (hb : b.Changes) :
  Edits (edit b)
  := ⟨b, hb, rfl⟩

theorem edits_insertChar (t : Text) :
  Edits (insertChar t)
  := by
  apply edits_edit
  apply changes_bind changes_get
  intro s
  apply changes_bind (changes_insertAt _ _)
  intro _
  apply changes_modify
  intro s
  exact .page rfl rfl

theorem edits_deleteChar :
  Edits deleteChar
  := by
  apply edits_edit
  apply changes_bind changes_get
  intro s
  apply changes_ite
  · apply changes_bind (changes_removeRange _ _)
    intro _
    apply changes_moveTo
  · apply changes_pure

theorem edits_deleteLine :
  Edits deleteLine
  := by
  have hremove (start stop : Nat) : Changes (do
      removeRange start stop
      keepCursor
      say "Deleted line") := by
    apply changes_bind (changes_removeRange _ _)
    intro _
    apply changes_bind changes_keepCursor
    intro _
    apply changes_say
  apply edits_edit
  apply changes_bind changes_currentLine
  intro i
  apply changes_bind (changes_lineStart i)
  intro start
  apply changes_bind changes_get
  intro s
  apply changes_ite
  · apply changes_bind (changes_lineStart _)
    intro stop
    apply hremove
  · apply changes_bind (changes_pure _)
    apply hremove

theorem edits_appendReset :
  Edits appendReset
  := by
  apply edits_edit
  apply changes_bind changes_currentLine
  intro i
  apply changes_bind (changes_lineText i)
  intro line
  apply changes_bind (changes_lineStart i)
  intro start
  apply changes_bind (changes_insertAt _ _)
  intro _
  apply changes_bind (changes_moveTo _)
  intro _
  apply changes_bind changes_openLine
  intro _
  apply changes_say

theorem changes_drawCheckpoint [Memory] (length : Int) :
  Changes (drawCheckpoint length)
  := by
  have hrest : Changes (do openLine; openLine; say "Inserted checkpoint") := by
    apply changes_bind changes_openLine
    intro _
    apply changes_bind changes_openLine
    intro _
    apply changes_say
  rw [drawCheckpoint]
  dsimp only
  split
  · apply changes_bind (changes_throw _)
    intro _
    apply hrest
  · apply changes_bind (changes_putSnippet _)
    intro _
    apply hrest

theorem edits_insertCheckpoint [Memory] (length : Option Int) :
  Edits (insertCheckpoint length)
  := by
  apply edits_edit
  apply changes_bind changes_get
  intro s
  apply changes_bind changes_prepareLine
  intro _
  apply changes_bind changes_currentLine
  intro i
  apply changes_ite
  · apply changes_bind (changes_lineText _)
    intro above
    apply changes_ite
    · apply changes_bind changes_openLine
      intro _
      apply changes_drawCheckpoint
    · apply changes_drawCheckpoint
  · apply changes_drawCheckpoint

theorem edits_insertVoice :
  Edits insertVoice
  := by
  apply edits_edit
  apply changes_bind changes_prepareLine
  intro _
  apply changes_bind (changes_putSnippet _)
  intro _
  apply changes_modify
  intro s
  exact .page rfl rfl

theorem edits_formatText [Memory] :
  Edits formatText
  := by
  apply edits_edit
  apply changes_bind changes_get
  intro s
  split
  · apply changes_throw
  · apply changes_bind
    · apply changes_modify
      intro s
      exact .page rfl rfl
    intro _
    apply changes_bind changes_keepCursor
    intro _
    apply changes_say

theorem changes_newNote (pitch : Text) :
  Changes (newNote pitch)
  := by
  apply changes_bind changes_get
  intro s
  apply changes_pure

theorem edits_insertNote [Memory] (letter : Text) :
  Edits (insertNote letter)
  := by
  apply edits_edit
  apply changes_bind (changes_newNote _)
  intro note
  apply changes_bind (changes_putSnippet _)
  intro _
  apply changes_playNote _

theorem edits_insertRest :
  Edits insertRest
  := by
  apply edits_edit
  apply changes_bind (changes_newNote _)
  intro note
  apply changes_putSnippet

theorem edits_deleteNote :
  Edits deleteNote
  := by
  apply edits_edit
  apply changes_bind changes_get
  intro s
  split
  · apply changes_pure
  · apply changes_bind (changes_removeRange _ _)
    intro _
    apply changes_bind changes_get
    intro t
    apply changes_ite
    · apply changes_bind (changes_removeRange _ _)
      intro _
      apply changes_bind (changes_moveTo _)
      intro _
      apply changes_say
    · apply changes_bind (changes_moveTo _)
      intro _
      apply changes_say

theorem edits_transposeNote [Memory] (delta : Int) :
  Edits (transposeNote delta)
  := by
  apply edits_edit
  apply changes_bind changes_get
  intro s
  split
  · apply changes_pure
  · split
    · apply changes_say
    · split
      · apply changes_say
      · apply changes_bind (changes_removeRange _ _)
        intro _
        apply changes_bind (changes_insertAt _ _)
        intro _
        apply changes_bind (changes_say _)
        intro _
        apply changes_bind changes_get
        intro t
        split
        · apply changes_pure
        · apply changes_playNote _

theorem edits_action [Memory] (e : Edit) :
  Edits e.action
  := by
  cases e with
  | insertChar t => apply edits_insertChar
  | deleteChar => apply edits_deleteChar
  | insertSnippet t => apply edits_edit (changes_putSnippet t)
  | insertTab => apply edits_edit (changes_putSnippet _)
  | insertLineBelow => apply edits_edit changes_openLine
  | deleteLine => apply edits_deleteLine
  | appendReset => apply edits_appendReset
  | insertCheckpoint length => apply edits_insertCheckpoint
  | insertVoice => apply edits_insertVoice
  | formatText => apply edits_formatText
  | insertNote letter => apply edits_insertNote
  | insertRest => apply edits_insertRest
  | deleteNote => apply edits_deleteNote
  | transposeNote delta => apply edits_transposeNote
  | record => apply edits_edit (changes_pure ())

theorem changes_moveToLine (i : Nat) :
  Changes (moveToLine i)
  := by
  apply changes_bind changes_get
  intro s
  apply changes_bind changes_currentLine
  intro j
  apply changes_bind (changes_lineStart j)
  intro start
  apply changes_bind (changes_lineText i)
  intro line
  apply changes_bind (changes_lineStart i)
  intro start'
  apply changes_moveTo

theorem changes_moveUp :
  Changes moveUp
  := by
  apply changes_bind changes_currentLine
  intro i
  apply changes_ite
  · apply changes_moveToLine
  · apply changes_pure

theorem changes_moveDown :
  Changes moveDown
  := by
  apply changes_bind changes_currentLine
  intro i
  apply changes_bind changes_get
  intro s
  apply changes_ite
  · apply changes_moveToLine
  · apply changes_pure

theorem changes_moveToNextMeasure :
  Changes moveToNextMeasure
  := by
  apply changes_bind changes_get
  intro s
  split
  · apply changes_moveTo
  · apply changes_bind changes_currentLine
    intro i
    apply changes_bind (changes_lineText i)
    intro line
    apply changes_bind (changes_lineStart i)
    intro start
    apply changes_bind (changes_moveTo _)
    intro _
    apply changes_say

theorem changes_moveToPreviousMeasure :
  Changes moveToPreviousMeasure
  := by
  apply changes_bind changes_get
  intro s
  apply changes_ite
  · split
    · apply changes_moveTo
    · apply changes_bind changes_currentLine
      intro i
      apply changes_bind (changes_lineStart i)
      intro start
      apply changes_bind (changes_moveTo _)
      intro _
      apply changes_say
  · apply changes_pure

theorem changes_moveToNextNote :
  Changes moveToNextNote
  := by
  apply changes_bind changes_get
  intro s
  split
  · apply changes_moveTo
  · apply changes_say

theorem changes_moveToPreviousNote :
  Changes moveToPreviousNote
  := by
  apply changes_bind changes_get
  intro s
  apply changes_ite
  · split
    · apply changes_moveTo
    · apply changes_say
  · apply changes_pure

theorem changes_playFromCursor [Memory] :
  Changes playFromCursor
  := by
  apply changes_bind changes_get
  intro s
  apply changes_bind (changes_ofBuffer _)
  intro score
  apply changes_playScore _ _ _

theorem changes_moveLeft :
  Changes moveLeft
  := by
  apply changes_modify
  intro s
  split
  · exact .page rfl rfl
  · exact .page rfl rfl

theorem changes_moveRight :
  Changes moveRight
  := by
  apply changes_modify
  intro s
  split
  · exact .page rfl rfl
  · exact .page rfl rfl

theorem changes_setDuration (duration : Text) :
  Changes (setDuration duration)
  := changes_modify fun _ => .page rfl rfl

theorem changes_addDot :
  Changes addDot
  := changes_modify fun _ => .page rfl rfl

theorem changes_removeDot :
  Changes removeDot
  := by
  apply changes_modify
  intro s
  split
  · exact .page rfl rfl
  · exact .page rfl rfl

theorem changes_setOctave (octave : Int) :
  Changes (setOctave octave)
  := changes_modify fun _ => .page rfl rfl

theorem changes_raiseOctave :
  Changes raiseOctave
  := by
  apply changes_bind changes_get
  intro s
  apply changes_ite
  · apply changes_setOctave
  · apply changes_pure

theorem changes_lowerOctave :
  Changes lowerOctave
  := by
  apply changes_bind changes_get
  intro s
  apply changes_ite
  · apply changes_setOctave
  · apply changes_pure

theorem changes_saveFile :
  Changes saveFile
  := by
  intro s
  apply after_get
  split
  · apply changes_say
  · split
    · apply changes_throw
    · apply after_set
      · exact .page rfl rfl
      · apply changes_say

theorem changes_playFile [Memory] :
  Changes playFile
  := by
  apply changes_bind changes_get
  intro s
  apply changes_playScore

theorem changes_close :
  Changes close
  := changes_modify .stop

theorem changes_gesture [Memory] (g : Gesture) :
  g.action.Changes
  := by
  cases g with
  | setDuration duration => apply changes_setDuration _
  | addDot => apply changes_addDot
  | removeDot => apply changes_removeDot
  | raiseOctave => apply changes_raiseOctave
  | lowerOctave => apply changes_lowerOctave
  | moveLeft => apply changes_moveLeft
  | moveRight => apply changes_moveRight
  | moveUp => apply changes_moveUp
  | moveDown => apply changes_moveDown
  | moveToNextMeasure => apply changes_moveToNextMeasure
  | moveToPreviousMeasure => apply changes_moveToPreviousMeasure
  | moveToNextNote => apply changes_moveToNextNote
  | moveToPreviousNote => apply changes_moveToPreviousNote
  | saveFile => apply changes_saveFile
  | playFile => apply changes_playFile
  | playFromCursor => apply changes_playFromCursor
  | playNote note => apply changes_playNote _
  | stopPlayback => apply changes_stopPlayback
  | close => apply changes_close

end Action

end Tunescript
