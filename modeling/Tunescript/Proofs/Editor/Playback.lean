import Tunescript.Proofs.Editor.Changes
import Tunescript.Proofs.Preview.OnePlayer

/-!
# The player of a session

Every operation of a session does to its player what stopping and starting do, if anything
(`Session.player_of_changes`).  So the player of a session is a player like any other, and at every
moment of every run of operations at most one of its processes is live (`oneLive_of_reachable`).
-/

namespace Tunescript

open Relation

namespace Session

variable {s t : Session}

/-- Changes do to the player what stopping and starting do. -/
theorem player_of_changes (h : ReflTransGen Change s t) (hs : s.player.Reachable) :
  t.player.Reachable
  := by
  induction h with
  | refl => exact hs
  | tail _ hc ih =>
    cases hc with
    | page _ player =>
      rw [player]
      exact ih
    | stop => exact ih.stop
    | start file => exact ih.start file

variable [Memory]

/-- The sessions that operations and time lead to, from any text and any player. -/
inductive Reachable : Session → Prop where
  /-- A session is opened with a player. -/
  | opened {s : Session} : s.player.Reachable → Reachable s
  /-- An operation is done, or fails on the way. -/
  | perform {s : Session} (op : Operation) : Reachable s → Reachable (s.perform op)
  /-- Time passes. -/
  | elapse {s : Session} {h : Host} : s.player.host.Elapses h → Reachable s →
    Reachable { s with player := { s.player with host := h } }

theorem player_perform_undo (s : Session) :
  (s.perform .undo).player = s.player
  := by
  simp only [perform, Action.after, Operation.action, Action.undo, EStateM.run_bind,
    EStateM.run_get]
  cases s.history.back? s.now with
  | none => rfl
  | some m => rfl

theorem player_perform_redo (s : Session) :
  (s.perform .redo).player = s.player
  := by
  simp only [perform, Action.after, Operation.action, Action.redo, EStateM.run_bind,
    EStateM.run_get]
  cases s.history.forth? s.now with
  | none => rfl
  | some m => rfl

theorem reachable_player_perform (op : Operation) (hs : s.player.Reachable) :
  (s.perform op).player.Reachable
  := by
  cases op with
  | edit e =>
    obtain ⟨a, ha, heq⟩ := Action.edits_action e
    rw [perform, Operation.action, heq]
    apply player_of_changes (ha { s with history := s.history.record s.now }) hs
  | undo => rwa [player_perform_undo]
  | redo => rwa [player_perform_redo]
  | gesture g => apply player_of_changes (Action.changes_gesture g s) hs
  | place cursor => apply player_of_changes (Action.changes_moveTo cursor s) hs

theorem Reachable.player (h : s.Reachable) :
  s.player.Reachable
  := by
  induction h with
  | opened h => exact h
  | perform op _ ih => exact reachable_player_perform op ih
  | elapse h _ ih => exact ih.elapse h

theorem player_perform_stopPlayback (s : Session) :
  (s.perform (.gesture .stopPlayback)).player = s.player.stop.2
  := by
  simp only [perform, Action.after, Operation.action, Gesture.action, Action.stopPlayback,
    EStateM.run_bind, EStateM.run_get]
  cases s.player.stop.1 with
  | true => rfl
  | false => rfl

theorem player_perform_close (s : Session) :
  (s.perform (.gesture .close)).player = s.player.stop.2
  := rfl

end Session

/-- However the processes behave, at every moment at most one process of a player is live: the one
that was started last, which is killed at most once and before any later attempt to start one.  None
is live after a preview was stopped or could not be started, or after a context.  So it is with the
player of a session, whatever is done to the session. -/
theorem oneLive_of_reachable [Memory] :
  (∀ p : Player, p.Reachable → p.OneLive ∧ p.stop.2.Idle ∧ (∀ files, (p.session files).2.Idle) ∧
    ∀ file e, (p.start file).1 = some e → (p.start file).2.Idle) ∧
  ∀ s : Session, s.Reachable → s.player.OneLive ∧
    (s.perform (.gesture .stopPlayback)).player.Idle ∧ (s.perform (.gesture .close)).player.Idle
  := by
  have hidle {p : Player} (hp : p.Reachable) : p.stop.2.Idle :=
    (Player.orderly_of_reachable hp.stop).idle p.stop_process
  constructor
  · intro p hp
    refine ⟨(Player.orderly_of_reachable hp).oneLive, hidle hp, ?_, ?_⟩
    · intro files
      apply (Player.orderly_of_reachable (hp.session files)).idle
      apply Player.stop_process
    · intro file e he
      apply (Player.orderly_of_reachable (hp.start file)).idle
      apply Player.process_of_start_fst he
  · intro s hs
    use (Player.orderly_of_reachable hs.player).oneLive
    rw [Session.player_perform_stopPlayback, Session.player_perform_close]
    exact ⟨hidle hs.player, hidle hs.player⟩

/-- A player whose first process is gone when it is killed, and whose second is not started. -/
def Player.unlucky : Player where
  command := ["aplay".toList]
  host := { script := [.gone, .missing] }

attribute [local instance] Memory.sixteenGigabytes in
/-- The first preview of the unlucky player is live, the second is not started and leaves none, in a
session as well. -/
theorem oneLive_of_reachable_unlucky :
  Player.unlucky.Fresh ∧ (Player.unlucky.start "a".toList).2.isPlaying ∧
    (Player.unlucky.start "a".toList).2.OneLive ∧
    ((Player.unlucky.start "a".toList).2.start "b".toList).1 = some (.missing "aplay".toList) ∧
    ((Player.unlucky.start "a".toList).2.start "b".toList).2.Idle ∧
    (Session.perform
      (.ofText ⟨[], Path.ofText [], 4, [], 71⟩ Player.unlucky.host Files.empty none [])
      (.gesture .close)).player.Idle
  := by
  have hfresh : Player.unlucky.Fresh := ⟨rfl, rfl, rfl⟩
  have hmissing : ((Player.unlucky.start "a".toList).2.start "b".toList).1 =
      some (.missing "aplay".toList) := by
    decide +kernel
  obtain ⟨hlive, -, -, hfailed⟩ :=
    oneLive_of_reachable.1 _ (Player.Reachable.fresh hfresh |>.start "a".toList)
  refine ⟨hfresh, by decide +kernel, hlive, hmissing, hfailed _ _ hmissing, ?_⟩
  apply (oneLive_of_reachable.2 _ (.opened (.fresh ⟨rfl, rfl, rfl⟩))).2.2

end Tunescript
