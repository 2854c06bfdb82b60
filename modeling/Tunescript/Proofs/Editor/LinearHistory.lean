import Tunescript.Proofs.Editor.HistoryKept

/-!
# The history is a line of moments

A session is at one moment of a timeline: the moments that undoing brings back lie before it, those
that redoing brings back lie behind it.  Undoing and redoing go along the timeline, an edit starts a
new end of it behind the present moment, and every other operation changes the present moment only
(`timeline_perform`).  What lies before the present moment therefore stays, however a run goes on
without undoing (`moments_run`), and so edits are taken back one by one and brought back one by one
(`linear_history`).
-/

namespace Tunescript

/-- Whether the operation goes along the history. -/
def Operation.recalls : Operation → Bool
  | undo => true
  | redo => true
  | _ => false

/-- Whether the operation is a step of the history. -/
def Operation.isEdit : Operation → Bool
  | edit _ => true
  | _ => false

/-- Moments in the order of the history, one of which is the present one. -/
structure Timeline where
  /-- The moments, the oldest first. -/
  moments : List (Snapshot × Int)
  /-- The number of moments before the present one. -/
  position : Nat

/-- The timeline after an operation that leads to the given moment. -/
def Timeline.next (l : Timeline) (now : Snapshot × Int) : Operation → Timeline
  | .edit _ => ⟨l.moments.take (l.position + 1) ++ [now], l.position + 1⟩
  | .undo => ⟨l.moments, l.position - 1⟩
  | .redo => ⟨l.moments, min (l.position + 1) (l.moments.length - 1)⟩
  | _ => ⟨l.moments.set l.position now, l.position⟩

namespace Session

variable {s t : Session} {op : Operation} {ops : List Operation}

/-- The timeline of a session. -/
def timeline (s : Session) : Timeline :=
  ⟨s.history.past.reverse ++ s.now :: s.history.future, s.history.past.length⟩

section Success

variable [Memory]

theorem perform_eq_of_perform? (h : s.perform? op = some t) :
  s.perform op = t
  := by
  rw [perform?] at h
  rw [perform, Action.after]
  cases hrun : EStateM.run op.action s with
  | ok x u =>
    rw [hrun] at h
    cases h
    rfl
  | error e u =>
    rw [hrun] at h
    cases h

theorem run_eq_of_run? (h : s.run? ops = some t) :
  s.run ops = t
  := by
  induction ops generalizing s with
  | nil =>
    cases h
    rfl
  | cons op ops ih =>
    obtain ⟨u, hu, ht⟩ := Option.bind_eq_some_iff.mp h
    rw [run, List.foldl_cons, perform_eq_of_perform? hu]
    apply ih ht

theorem run?_eq_run (h : ∀ s : Session, s.perform? op = some (s.perform op)) (s : Session)
    (k : Nat) :
  s.run? (List.replicate k op) = some (s.run (List.replicate k op))
  := by
  induction k generalizing s with
  | zero => rfl
  | succ k ih =>
    rw [List.replicate_succ, run?, h]
    apply ih

theorem perform?_undo (s : Session) :
  s.perform? .undo = some (s.perform .undo)
  := by
  simp only [perform?, perform, Action.after, Operation.action, Action.undo, EStateM.run_bind,
    EStateM.run_get]
  cases s.history.back? s.now with
  | none => rfl
  | some m => rfl

theorem perform?_redo (s : Session) :
  s.perform? .redo = some (s.perform .redo)
  := by
  simp only [perform?, perform, Action.after, Operation.action, Action.redo, EStateM.run_bind,
    EStateM.run_get]
  cases s.history.forth? s.now with
  | none => rfl
  | some m => rfl

end Success

section Moments

theorem moments_position (s : Session) :
  s.timeline.moments[s.timeline.position]? = some s.now
  := by
  simp [timeline]

theorem position_lt_length (s : Session) :
  s.timeline.position < s.timeline.moments.length
  := by
  apply (List.getElem?_eq_some_iff.mp s.moments_position).1

theorem now_eq_of_timeline {moments : List (Snapshot × Int)} {i : Nat} {m : Snapshot × Int}
    (ht : t.timeline = ⟨moments, i⟩) (hm : moments[i]? = some m) :
  t.now = m
  := by
  have hnow := t.moments_position
  rw [ht, hm] at hnow
  apply (Option.some.inj hnow).symm

variable [Memory]

theorem undo_of_past_nil (h : s.history.past = []) :
  s.SameMoment (s.perform .undo)
  := by
  simp only [perform, Action.after, Operation.action, Action.undo, EStateM.run_bind,
    EStateM.run_get, History.back?, h]
  exact ⟨rfl, rfl⟩

theorem undo_of_past_cons {m : Snapshot × Int} {past : List (Snapshot × Int)}
    (h : s.history.past = m :: past) :
  (s.perform .undo).now = m ∧ (s.perform .undo).history = ⟨past, s.now :: s.history.future⟩
  := by
  simp only [perform, Action.after, Operation.action, Action.undo, EStateM.run_bind,
    EStateM.run_get, History.back?, h]
  exact ⟨rfl, rfl⟩

theorem redo_of_future_nil (h : s.history.future = []) :
  s.SameMoment (s.perform .redo)
  := by
  simp only [perform, Action.after, Operation.action, Action.redo, EStateM.run_bind,
    EStateM.run_get, History.forth?, h]
  exact ⟨rfl, rfl⟩

theorem redo_of_future_cons {m : Snapshot × Int} {future : List (Snapshot × Int)}
    (h : s.history.future = m :: future) :
  (s.perform .redo).now = m ∧ (s.perform .redo).history = ⟨s.now :: s.history.past, future⟩
  := by
  simp only [perform, Action.after, Operation.action, Action.redo, EStateM.run_bind,
    EStateM.run_get, History.forth?, h]
  exact ⟨rfl, rfl⟩

end Moments

section Line

variable [Memory]

/-- Every operation goes along the timeline, starts a new end of it, or changes the present moment
only. -/
theorem timeline_perform (s : Session) (op : Operation) :
  (s.perform op).timeline = s.timeline.next (s.perform op).now op
  := by
  have hkeeps (h : (s.perform op).history = s.history) :
      (s.perform op).timeline =
        ⟨s.timeline.moments.set s.timeline.position (s.perform op).now, s.timeline.position⟩ := by
    simp only [timeline, h, Timeline.mk.injEq, and_true]
    rw [List.set_append_right _ _ (by simp)]
    simp
  cases op with
  | edit e =>
    have h : (s.perform (.edit e)).history = s.history.record s.now :=
      Action.after_edit_action_history e s
    have hpast : s.history.past.reverse.take (s.history.past.length + 1) =
        s.history.past.reverse := by
      apply List.take_of_length_le
      simp
    simp [timeline, Timeline.next, h, History.record, List.take_append, hpast]
  | undo =>
    cases hpast : s.history.past with
    | nil =>
      obtain ⟨hnow, hhistory⟩ := undo_of_past_nil hpast
      simp [timeline, Timeline.next, hnow, hhistory, hpast]
    | cons m past =>
      obtain ⟨hnow, hhistory⟩ := undo_of_past_cons hpast
      simp [timeline, Timeline.next, hnow, hhistory, hpast]
  | redo =>
    cases hfuture : s.history.future with
    | nil =>
      obtain ⟨hnow, hhistory⟩ := redo_of_future_nil hfuture
      simp [timeline, Timeline.next, hnow, hhistory, hfuture]
    | cons m future =>
      obtain ⟨hnow, hhistory⟩ := redo_of_future_cons hfuture
      simp [timeline, Timeline.next, hnow, hhistory, hfuture]
  | gesture g => apply hkeeps (Action.keepsHistory_gesture g s)
  | place cursor => apply hkeeps (Action.keepsHistory_moveTo cursor s)

/-- Without undoing and redoing, an operation leaves the moments before the present one. -/
theorem moments_perform (h : op.recalls = false) {i : Nat} (hi : i < s.timeline.position) :
  (s.perform op).timeline.moments[i]? = s.timeline.moments[i]?
  := by
  have hlt := s.position_lt_length
  rw [timeline_perform]
  cases op with
  | edit e =>
    rw [Timeline.next, List.getElem?_append_left, List.getElem?_take_of_lt]
    · omega
    · rw [List.length_take]
      omega
  | undo => cases h
  | redo => cases h
  | gesture g => apply List.getElem?_set_ne (Nat.ne_of_gt hi)
  | place cursor => apply List.getElem?_set_ne (Nat.ne_of_gt hi)

theorem position_perform (h : op.recalls = false) :
  (s.perform op).timeline.position = s.timeline.position + if op.isEdit then 1 else 0
  := by
  rw [timeline_perform]
  cases op with
  | edit e => rfl
  | undo => cases h
  | redo => cases h
  | gesture g => rfl
  | place cursor => rfl

/-- Without undoing and redoing, a run leaves the moments before the present one, and it goes one
moment on with every edit. -/
theorem moments_run (h : ∀ op ∈ ops, op.recalls = false) :
  (∀ i, i < s.timeline.position → (s.run ops).timeline.moments[i]? = s.timeline.moments[i]?) ∧
  (s.run ops).timeline.position = s.timeline.position + ops.countP Operation.isEdit
  := by
  induction ops generalizing s with
  | nil => exact ⟨fun _ _ => rfl, rfl⟩
  | cons op ops ih =>
    have hop := h op List.mem_cons_self
    obtain ⟨hmoments, hposition⟩ := ih (s := s.perform op) fun op hop =>
      h op (List.mem_cons_of_mem _ hop)
    have hnext := position_perform (s := s) hop
    constructor
    · intro i hi
      rw [← moments_perform hop hi]
      apply hmoments
      omega
    · rw [List.countP_cons, Nat.add_comm (List.countP _ _), ← Nat.add_assoc, ← hnext]
      apply hposition

theorem timeline_run_undo (s : Session) (k : Nat) :
  (s.run (List.replicate k .undo)).timeline =
    ⟨s.timeline.moments, s.timeline.position - k⟩
  := by
  induction k generalizing s with
  | zero => rfl
  | succ k ih =>
    rw [List.replicate_succ, run, List.foldl_cons]
    apply (ih (s.perform .undo)).trans
    rw [timeline_perform, Timeline.next, Nat.sub_sub, Nat.add_comm 1]

theorem timeline_run_redo (s : Session) (k : Nat)
    (h : s.timeline.position + k < s.timeline.moments.length) :
  (s.run (List.replicate k .redo)).timeline =
    ⟨s.timeline.moments, s.timeline.position + k⟩
  := by
  induction k generalizing s with
  | zero => rfl
  | succ k ih =>
    have hnext : (s.perform .redo).timeline = ⟨s.timeline.moments, s.timeline.position + 1⟩ := by
      rw [timeline_perform, Timeline.next, Nat.min_eq_left]
      omega
    have hroom : (s.perform .redo).timeline.position + k <
        (s.perform .redo).timeline.moments.length := by
      rw [hnext]
      dsimp only
      omega
    rw [List.replicate_succ, run, List.foldl_cons]
    apply (ih (s.perform .redo) hroom).trans
    rw [hnext, Nat.add_assoc, Nat.add_comm 1]

theorem redo_after_undo (h : s.history.past ≠ []) :
  ∃ t, s.run? [.undo, .redo] = some t ∧
    t.text = s.text ∧ t.cursor = s.cursor ∧ t.history = s.history
  := by
  obtain ⟨m, past, hpast⟩ := List.exists_cons_of_ne_nil h
  obtain ⟨-, hundo⟩ := undo_of_past_cons hpast
  obtain ⟨hnow, hredo⟩ := redo_of_future_cons (s := s.perform .undo) (congrArg _ hundo)
  obtain ⟨hm, -⟩ := undo_of_past_cons hpast
  use (s.perform .undo).perform .redo
  refine ⟨?_, text_eq_of_now_eq hnow, cursor_eq_of_now_eq hnow, ?_⟩
  · simp [run?, perform?_undo, perform?_redo]
  · rw [hredo, hundo, hm, ← hpast]

theorem undo_after_redo (h : s.history.future ≠ []) :
  ∃ t, s.run? [.redo, .undo] = some t ∧
    t.text = s.text ∧ t.cursor = s.cursor ∧ t.history = s.history
  := by
  obtain ⟨m, future, hfuture⟩ := List.exists_cons_of_ne_nil h
  obtain ⟨hm, hredo⟩ := redo_of_future_cons hfuture
  obtain ⟨hnow, hundo⟩ := undo_of_past_cons (s := s.perform .redo) (congrArg _ hredo)
  use (s.perform .redo).perform .undo
  refine ⟨?_, text_eq_of_now_eq hnow, cursor_eq_of_now_eq hnow, ?_⟩
  · simp [run?, perform?_undo, perform?_redo]
  · rw [hundo, hredo, hm, ← hfuture]

/-- After an edit and what follows it, the moment before the edit lies as many moments back as
there are edits. -/
theorem moments_run_edit (e : Edit) (hops : ∀ op ∈ ops, op.recalls = false) :
  (s.run (.edit e :: ops)).timeline.moments[s.timeline.position]? = some s.now ∧
  (s.run (.edit e :: ops)).timeline.position =
    s.timeline.position + (ops.countP Operation.isEdit + 1)
  := by
  have hedit : (s.perform (.edit e)).timeline.position = s.timeline.position + 1 :=
    position_perform (rfl : (Operation.edit e).recalls = false)
  have hfirst : (s.perform (.edit e)).timeline.moments[s.timeline.position]? = some s.now := by
    have hlt := s.position_lt_length
    rw [timeline_perform, Timeline.next, List.getElem?_append_left, List.getElem?_take_of_lt,
      moments_position]
    · omega
    · rw [List.length_take]
      omega
  obtain ⟨hmoments, hposition⟩ := moments_run (s := s.perform (.edit e)) hops
  rw [hedit] at hmoments hposition
  constructor
  · apply (hmoments _ (Nat.lt_succ_self _)).trans hfirst
  · rw [Nat.add_comm (ops.countP _), ← Nat.add_assoc]
    apply hposition

/-- An edit and what follows it are taken back by as many steps as there are edits, and brought
back by as many. -/
theorem undo_and_redo_run (e : Edit) (hops : ∀ op ∈ ops, op.recalls = false)
    (ht : s.run? (.edit e :: ops) = some t) :
  ∃ u v, t.run? (List.replicate (ops.countP Operation.isEdit + 1) .undo) = some u ∧
    u.text = s.text ∧ u.cursor = s.cursor ∧
    u.run? (List.replicate (ops.countP Operation.isEdit + 1) .redo) = some v ∧
    v.text = t.text ∧ v.cursor = t.cursor
  := by
  obtain ⟨hstart, hposition⟩ := moments_run_edit (s := s) e hops
  rw [run_eq_of_run? ht] at hstart hposition
  generalize ops.countP Operation.isEdit + 1 = k at *
  have hlt := t.position_lt_length
  have hundo : (t.run (List.replicate k .undo)).timeline =
      ⟨t.timeline.moments, s.timeline.position⟩ := by
    rw [timeline_run_undo, hposition, Nat.add_sub_cancel]
  have hredo : ((t.run (List.replicate k .undo)).run (List.replicate k .redo)).timeline =
      ⟨t.timeline.moments, t.timeline.position⟩ := by
    rw [timeline_run_redo, hundo, hposition]
    rw [hundo, ← hposition]
    apply hlt
  have hu := now_eq_of_timeline hundo hstart
  have hv := now_eq_of_timeline hredo t.moments_position
  use t.run (List.replicate k .undo), (t.run (List.replicate k .undo)).run (List.replicate k .redo)
  exact ⟨run?_eq_run perform?_undo t k, text_eq_of_now_eq hu, cursor_eq_of_now_eq hu,
    run?_eq_run perform?_redo _ k, text_eq_of_now_eq hv, cursor_eq_of_now_eq hv⟩

/-- The history of a session is a line of moments.  Undoing and redoing take each other back
exactly; an edit records exactly the moment before it and forgets what could be redone; no other
operation touches the history; and what some edits did, with other operations in between, is taken
back by as many undos and brought back by as many redos. -/
theorem linear_history (s : Session) :
  (s.history.past ≠ [] → ∃ t, s.run? [.undo, .redo] = some t ∧
    t.text = s.text ∧ t.cursor = s.cursor ∧ t.history = s.history) ∧
  (s.history.future ≠ [] → ∃ t, s.run? [.redo, .undo] = some t ∧
    t.text = s.text ∧ t.cursor = s.cursor ∧ t.history = s.history) ∧
  (∀ e, (s.perform (.edit e)).history = ⟨(s.buffer.snapshot, s.cursor) :: s.history.past, []⟩) ∧
  (∀ op, op.isEdit = false → op.recalls = false → (s.perform op).history = s.history) ∧
  (∀ op, (s.perform op).timeline = s.timeline.next (s.perform op).now op) ∧
  (∀ e ops t, (∀ op ∈ ops, op.recalls = false) → s.run? (.edit e :: ops) = some t →
    ∃ u v, t.run? (List.replicate (ops.countP Operation.isEdit + 1) .undo) = some u ∧
      u.text = s.text ∧ u.cursor = s.cursor ∧
      u.run? (List.replicate (ops.countP Operation.isEdit + 1) .redo) = some v ∧
      v.text = t.text ∧ v.cursor = t.cursor)
  := by
  refine ⟨redo_after_undo, undo_after_redo, ?_, ?_, s.timeline_perform, ?_⟩
  · intro e
    apply Action.after_edit_action_history e s
  · intro op hedit hrecalls
    cases op with
    | edit e => cases hedit
    | undo => cases hrecalls
    | redo => cases hrecalls
    | gesture g => apply Action.keepsHistory_gesture g s
    | place cursor => apply Action.keepsHistory_moveTo cursor s
  · intro e ops t
    apply undo_and_redo_run

end Line

/-- A session without a text. -/
def blank : Session :=
  ofText { playerCommand := [], previewDirectory := Path.ofText [] } {} Files.empty none []

attribute [local instance] Memory.sixteenGigabytes in
/-- Typing, moving and typing again are taken back by two undos and brought back by two redos. -/
theorem linear_history_blank :
  ∃ t u v, blank.run? [.edit (.insertChar ['x']), .gesture .moveLeft, .edit .insertTab] = some t ∧
    t.run? (List.replicate 2 .undo) = some u ∧ u.text = blank.text ∧ u.cursor = blank.cursor ∧
    u.run? (List.replicate 2 .redo) = some v ∧ v.text = t.text ∧ v.cursor = t.cursor
  := by
  have hsome : (blank.run?
      [.edit (.insertChar ['x']), .gesture .moveLeft, .edit .insertTab]).isSome = true := by
    decide +kernel
  obtain ⟨t, ht⟩ := Option.isSome_iff_exists.mp hsome
  obtain ⟨-, -, -, -, -, hruns⟩ := linear_history blank
  have hops : ∀ op ∈ [Operation.gesture .moveLeft, .edit .insertTab], op.recalls = false := by
    intro op hop
    obtain rfl | hop := List.mem_cons.mp hop
    · rfl
    · rw [List.mem_singleton.mp hop]
      rfl
  obtain ⟨u, v, h⟩ := hruns (.insertChar ['x']) _ t hops ht
  exact ⟨t, u, v, ht, h⟩

end Session

end Tunescript
