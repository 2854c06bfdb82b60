import Tunescript.Proofs.Editor.Changes

/-!
# Who writes the history

Only undoing, redoing and the first step of an edit write the history.  The changes that an edit is
made of leave it alone, so that an edit of many changes is one step of the history
(`after_edit_action_history`); so does every gesture (`keepsHistory_gesture`).  This holds as well
of operations that fail on the way.
-/

namespace Tunescript

open Relation

/-- Changes leave the history alone. -/
theorem Session.history_of_changes {s t : Session} (h : ReflTransGen Change s t) :
  t.history = s.history
  := by
  induction h with
  | refl => rfl
  | tail _ hc ih =>
    rw [← ih]
    cases hc with
    | page history _ => exact history
    | stop => rfl
    | start => rfl

namespace Action

/-- The action leaves the history alone. -/
def KeepsHistory {α : Type} (a : Action α) : Prop := ∀ s, (a.after s).history = s.history

theorem Changes.keepsHistory {α : Type} {a : Action α} (ha : a.Changes) :
  a.KeepsHistory
  := fun s => Session.history_of_changes (ha s)

/-- An edit adds one moment to the history, the one before the edit, and takes away what redoing
would have brought back. -/
theorem after_edit_action_history [Memory] (e : Edit) (s : Session) :
  (e.action.after s).history = s.history.record s.now
  := by
  obtain ⟨a, ha, heq⟩ := edits_action e
  rw [heq]
  apply ha.keepsHistory { s with history := s.history.record s.now }

theorem keepsHistory_gesture [Memory] (g : Gesture) :
  g.action.KeepsHistory
  := (changes_gesture g).keepsHistory

theorem keepsHistory_moveTo (cursor : Int) :
  KeepsHistory (moveTo cursor)
  := (changes_moveTo cursor).keepsHistory

end Action

end Tunescript
