import Mathlib.Data.List.Basic
import Mathlib.Tactic.MkIffOfInductiveProp
import Tunescript.Preview.Player

/-!
# One process at a time

The host keeps a record of what was done to processes.  A player lets go of its process before it
kills it, and kills it before it tries to start another, so that its record is that of one process
after the other (`OneByOne`), and the process the player has is the one that was started and not
killed.  This is what every operation preserves, however the processes behave
(`Player.orderly_of_reachable`); that at most one process is live at every moment (`Player.OneLive`)
is read off the record.
-/

namespace Tunescript

/-- Whether a process that behaves so is started at all. -/
def Behaviour.starts : Behaviour → Bool
  | missing => false
  | refused => false
  | _ => true

/-- The process that an event is an attempt to start. -/
def ProcessEvent.attempt? : ProcessEvent → Option Nat
  | spawn n _ => some n
  | _ => none

/-- The processes that were tried to start, in order. -/
def attempts (r : List ProcessEvent) : List Nat := r.filterMap ProcessEvent.attempt?

@[simp] theorem attempts_nil :
  attempts [] = []
  := rfl

@[simp] theorem attempts_append (r q : List ProcessEvent) :
  attempts (r ++ q) = attempts r ++ attempts q
  := List.filterMap_append

@[simp] theorem attempts_spawn (n : Nat) (args : List Text) (r : List ProcessEvent) :
  attempts (.spawn n args :: r) = n :: attempts r
  := rfl

@[simp] theorem attempts_kill (n : Nat) (r : List ProcessEvent) :
  attempts (.kill n :: r) = attempts r
  := rfl

@[simp] theorem attempts_wait (n : Nat) (r : List ProcessEvent) :
  attempts (.wait n :: r) = attempts r
  := rfl

/-- After the events the process has been started and has not been killed. -/
@[mk_iff]
structure Host.Live (h : Host) (r : List ProcessEvent) (n : Nat) : Prop where
  /-- It was tried to start. -/
  attempted : n ∈ attempts r
  /-- It did start. -/
  starts : (h.behaviour n).starts
  /-- It was not killed. -/
  spared : .kill n ∉ r

/-- Time passes on the host: the processes may behave otherwise from now on, but those that were
tried to start did start or did not. -/
structure Host.Elapses (h k : Host) : Prop where
  /-- Nothing is done to a process. -/
  record : k.record = h.record
  /-- No process is tried to start. -/
  spawned : k.spawned = h.spawned
  /-- What did start did start. -/
  starts : ∀ n ≤ h.spawned, (k.behaviour n).starts = (h.behaviour n).starts

/-- An attempt to start a process gives its number if it starts. -/
theorem Host.spawn_toOption (h : Host) (args : List Text) :
  (h.spawn args).1.toOption =
    if (h.behaviour (h.spawned + 1)).starts then some (h.spawned + 1) else none
  := by
  rw [Host.spawn]
  cases h.behaviour (h.spawned + 1) <;> rfl

theorem Host.spawn_host (h : Host) (args : List Text) :
  (h.spawn args).2 = { h with
    spawned := h.spawned + 1
    record := h.record ++ [.spawn (h.spawned + 1) args] }
  := by
  rw [Host.spawn]
  cases h.behaviour (h.spawned + 1) <;> rfl

/-- The record of one process after the other, and the process that is live after it.  A process is
tried to start only if none is live, and killed only if it is. -/
inductive OneByOne (starts : Nat → Bool) : Option Nat → List ProcessEvent → Prop where
  /-- Nothing was done. -/
  | nil : OneByOne starts none []
  /-- The next process is started. -/
  | started {r : List ProcessEvent} (args : List Text) :
    OneByOne starts none r → starts ((attempts r).length + 1) →
    OneByOne starts (some ((attempts r).length + 1)) (r ++ [.spawn ((attempts r).length + 1) args])
  /-- The next process is not started. -/
  | failed {r : List ProcessEvent} (args : List Text) :
    OneByOne starts none r → starts ((attempts r).length + 1) = false →
    OneByOne starts none (r ++ [.spawn ((attempts r).length + 1) args])
  /-- The live process is killed. -/
  | killed {r : List ProcessEvent} {n : Nat} :
    OneByOne starts (some n) r → OneByOne starts none (r ++ [.kill n])
  /-- The end of a process is waited for. -/
  | awaited {r : List ProcessEvent} (n : Nat) :
    OneByOne starts none r → OneByOne starts none (r ++ [.wait n])

namespace OneByOne

variable {starts : Nat → Bool} {l : Option Nat} {r q : List ProcessEvent} {m n : Nat}

/-- The live process is the one that was just started. -/
theorem eq_started (h : OneByOne starts (some n) r) :
  ∃ q args, OneByOne starts none q ∧ n = (attempts q).length + 1 ∧ starts n ∧
    r = q ++ [.spawn n args]
  := by
  cases h with
  | started args hq hstarts => exact ⟨_, args, hq, rfl, hstarts, rfl⟩

/-- Only processes that were tried to start are killed. -/
theorem le_of_kill_mem (h : OneByOne starts l r) (hn : .kill n ∈ r) :
  n ≤ (attempts r).length
  := by
  induction h with
  | nil => cases hn
  | started args _ _ ih =>
    have hle := ih (by simpa using hn)
    simp
    omega
  | failed args _ _ ih =>
    have hle := ih (by simpa using hn)
    simp
    omega
  | @killed r m hr ih =>
    obtain ⟨q, args, -, rfl, -, rfl⟩ := hr.eq_started
    rw [List.mem_append, List.mem_singleton, ProcessEvent.kill.injEq] at hn
    obtain hn | rfl := hn
    · simpa using ih hn
    · simp
  | awaited m _ ih => simpa using ih (by simpa using hn)

/-- The live process was not killed. -/
theorem kill_not_mem (h : OneByOne starts (some n) r) :
  .kill n ∉ r
  := by
  obtain ⟨q, args, hq, hn, -, rfl⟩ := h.eq_started
  intro hkill
  have hle := hq.le_of_kill_mem (n := n) (by simpa using hkill)
  omega

theorem count_kill_le (h : OneByOne starts l r) (n : Nat) :
  r.count (.kill n) ≤ 1
  := by
  induction h with
  | nil => simp
  | started args _ _ ih => simpa using ih
  | failed args _ _ ih => simpa using ih
  | @killed r m hr ih =>
    obtain rfl | hne := eq_or_ne n m
    · have hzero := List.count_eq_zero.mpr hr.kill_not_mem
      simp [hzero]
    · simpa [hne.symm] using ih
  | awaited m _ ih => simpa using ih

/-- The processes that were started and not killed are the live process. -/
theorem live_iff (h : OneByOne starts l r) (n : Nat) :
  n ∈ attempts r ∧ starts n ∧ .kill n ∉ r ↔ l = some n
  := by
  constructor
  · rintro ⟨hmem, hstarts, hkill⟩
    induction h with
    | nil => cases hmem
    | started args hr _ ih =>
      rw [attempts_append, attempts_spawn, attempts_nil, List.mem_append,
        List.mem_singleton] at hmem
      obtain hmem | rfl := hmem
      · cases ih hmem (by simpa using hkill)
      · rfl
    | failed args hr hfail ih =>
      rw [attempts_append, attempts_spawn, attempts_nil, List.mem_append,
        List.mem_singleton] at hmem
      obtain hmem | rfl := hmem
      · apply ih hmem (by simpa using hkill)
      · rw [hfail] at hstarts
        cases hstarts
    | killed hr ih =>
      rw [List.mem_append, not_or] at hkill
      cases ih (by simpa using hmem) hkill.1
      simp at hkill
    | awaited m hr ih => apply ih (by simpa using hmem) (by simpa using hkill)
  · rintro rfl
    obtain ⟨q, args, -, -, hstarts, rfl⟩ := id h.eq_started
    exact ⟨by simp, hstarts, h.kill_not_mem⟩

/-- What was done at an earlier moment was done to one process after the other as well. -/
theorem of_prefix (h : OneByOne starts l r) (hq : q <+: r) :
  ∃ k, OneByOne starts k q
  := by
  induction h with
  | nil =>
    rw [List.prefix_nil.mp hq]
    exact ⟨none, nil⟩
  | started args hr hstarts ih =>
    obtain rfl | hq := List.prefix_concat_iff.mp hq
    · exact ⟨_, hr.started args hstarts⟩
    · apply ih hq
  | failed args hr hfail ih =>
    obtain rfl | hq := List.prefix_concat_iff.mp hq
    · exact ⟨_, hr.failed args hfail⟩
    · apply ih hq
  | killed hr ih =>
    obtain rfl | hq := List.prefix_concat_iff.mp hq
    · exact ⟨_, hr.killed⟩
    · apply ih hq
  | awaited m hr ih =>
    obtain rfl | hq := List.prefix_concat_iff.mp hq
    · exact ⟨_, hr.awaited m⟩
    · apply ih hq

/-- When a process is tried to start none is live, and if it is not started none is live then. -/
theorem of_spawn {args : List Text} (h : OneByOne starts l (r ++ [.spawn n args])) :
  OneByOne starts none r ∧ l = if starts n then some n else none
  := by
  generalize hq : r ++ [ProcessEvent.spawn n args] = q at h
  cases h with
  | nil => simp at hq
  | started args hr hstarts =>
    obtain ⟨rfl, heq⟩ := List.append_inj' hq rfl
    cases heq
    exact ⟨hr, by rw [if_pos hstarts]⟩
  | failed args hr hfail =>
    obtain ⟨rfl, heq⟩ := List.append_inj' hq rfl
    cases heq
    exact ⟨hr, by rw [hfail]; rfl⟩
  | killed hr => cases (List.append_inj' hq rfl).2
  | awaited m hr => cases (List.append_inj' hq rfl).2

/-- Only what started of the processes that were tried to start matters. -/
theorem congr {starts' : Nat → Bool} (h : OneByOne starts l r)
    (heq : ∀ n ≤ (attempts r).length, starts' n = starts n) :
  OneByOne starts' l r
  := by
  induction h with
  | nil => exact nil
  | @started r args _ hstarts ih =>
    simp only [attempts_append, attempts_spawn, attempts_nil, List.length_append,
      List.length_singleton] at heq
    apply (ih fun n hn => heq n (by omega)).started
    rw [heq _ (Nat.le_refl _), hstarts]
  | @failed r args _ hfail ih =>
    simp only [attempts_append, attempts_spawn, attempts_nil, List.length_append,
      List.length_singleton] at heq
    apply (ih fun n hn => heq n (by omega)).failed
    rw [heq _ (Nat.le_refl _), hfail]
  | killed _ ih => exact (ih (by simpa using heq)).killed
  | awaited m _ ih => exact (ih (by simpa using heq)).awaited m

end OneByOne

namespace Player

variable {p : Player}

/-- A player that has done nothing yet. -/
structure Fresh (p : Player) : Prop where
  /-- It has no process. -/
  process : p.process = none
  /-- No process was tried to start. -/
  spawned : p.host.spawned = 0
  /-- Nothing was done to a process. -/
  record : p.host.record = []

/-- The players that start, stop and time lead to.  Stopping is also what closing a player and
leaving a context of it do. -/
inductive Reachable : Player → Prop where
  /-- A player that has done nothing yet. -/
  | fresh {p : Player} : p.Fresh → Reachable p
  /-- A preview is started, or not. -/
  | start {p : Player} (file : Text) : Reachable p → Reachable (p.start file).2
  /-- The preview is stopped. -/
  | stop {p : Player} : Reachable p → Reachable p.stop.2
  /-- Previews are started in a context. -/
  | session {p : Player} (files : List Text) : Reachable p → Reachable (p.session files).2
  /-- Time passes. -/
  | elapse {p : Player} {h : Host} : p.host.Elapses h → Reachable p → Reachable { p with host := h }

/-- At no moment is more than one process live. -/
structure OneLive (p : Player) : Prop where
  /-- Two processes that are live are one. -/
  unique : ∀ r m n, r <+: p.host.record → p.host.Live r m → p.host.Live r n → m = n
  /-- The live process is the last one that was tried to start. -/
  last : ∀ r n, r <+: p.host.record → p.host.Live r n → (attempts r).getLast? = some n
  /-- No process is killed twice. -/
  killedOnce : ∀ n, p.host.record.count (.kill n) ≤ 1
  /-- No process is live when another is tried to start. -/
  beforeAttempt : ∀ r n args, r ++ [.spawn n args] <+: p.host.record → ∀ m, ¬p.host.Live r m
  /-- No process is live after another could not be started. -/
  afterFailure : ∀ r n args, r ++ [.spawn n args] <+: p.host.record →
    (p.host.behaviour n).starts = false → ∀ m, ¬p.host.Live (r ++ [.spawn n args]) m
  /-- A preview is playing only while a process is live. -/
  playing : p.isPlaying → ∃ n, p.host.Live p.host.record n

/-- No process is live. -/
def Idle (p : Player) : Prop := ∀ n, ¬p.host.Live p.host.record n

/-- The record is that of one process after the other, and the player has the live one. -/
structure Orderly (p : Player) : Prop where
  /-- The processes that were tried to start are counted. -/
  spawned : (attempts p.host.record).length = p.host.spawned
  /-- The player has the live process. -/
  oneByOne : OneByOne (fun n => (p.host.behaviour n).starts) p.process p.host.record

theorem Fresh.orderly (h : p.Fresh) :
  p.Orderly
  := by
  obtain ⟨hprocess, hspawned, hrecord⟩ := h
  constructor
  · rw [hrecord, hspawned]
    rfl
  · rw [hprocess, hrecord]
    exact .nil

theorem stop_process (p : Player) :
  p.stop.2.process = none
  := by
  rw [stop]
  split
  · rfl
  · assumption

theorem Orderly.stop (h : p.Orderly) :
  p.stop.2.Orderly
  := by
  obtain ⟨hspawned, hone⟩ := h
  rw [Player.stop]
  split
  · rename_i n hn
    rw [hn] at hone
    have hkilled := hone.killed
    simp only [Host.stop, Host.note]
    split
    · exact ⟨by simpa using hspawned, hkilled⟩
    · exact ⟨by simpa using hspawned, hkilled.awaited n⟩
  · exact ⟨hspawned, hone⟩

/-- Starting a preview is stopping the one before and then an attempt to start a process. -/
theorem start_snd (p : Player) (file : Text) :
  (p.start file).2 = { p.stop.2 with
    process := (p.stop.2.host.spawn (p.command ++ [file])).1.toOption
    host := (p.stop.2.host.spawn (p.command ++ [file])).2 }
  := by
  have hidle := p.stop_process
  rw [start]
  dsimp only
  split
  · rename_i hspawn
    rw [hspawn]
    rfl
  · rename_i hspawn
    rw [hspawn, hidle]
    rfl

/-- A preview that is not started leaves no process. -/
theorem process_of_start_fst {file : Text} {e : StartError} (h : (p.start file).1 = some e) :
  (p.start file).2.process = none
  := by
  have hidle := p.stop_process
  rw [start] at *
  split at h
  · cases h
  · apply hidle

theorem Orderly.start (h : p.Orderly) (file : Text) :
  (p.start file).2.Orderly
  := by
  obtain ⟨hspawned, hone⟩ := h.stop
  rw [p.stop_process] at hone
  rw [start_snd, Host.spawn_host, Host.spawn_toOption, ← hspawned]
  constructor
  · simp
  · split
    · apply hone.started
      assumption
    · apply hone.failed
      rwa [← Bool.not_eq_true]

theorem Orderly.startAll (h : p.Orderly) (files : List Text) :
  (p.startAll files).2.Orderly
  := by
  induction files generalizing p with
  | nil => apply h
  | cons file files ih =>
    have hstart := h.start file
    rw [Player.startAll]
    split
    · rename_i q hq
      rw [hq] at hstart
      apply ih hstart
    · rename_i e q hq
      rw [hq] at hstart
      apply hstart

theorem Orderly.elapse (h : p.Orderly) {k : Host} (hk : p.host.Elapses k) :
  Orderly { p with host := k }
  := by
  obtain ⟨hspawned, hone⟩ := h
  obtain ⟨hrecord, hcount, hstarts⟩ := hk
  constructor
  · rw [hrecord, hspawned, hcount]
  · rw [hrecord]
    apply hone.congr
    rwa [hspawned]

/-- However the processes behave, a player has one process after the other. -/
theorem orderly_of_reachable (h : p.Reachable) :
  p.Orderly
  := by
  induction h with
  | fresh h => exact h.orderly
  | start file _ ih => exact ih.start file
  | stop _ ih => exact ih.stop
  | session files _ ih => exact (ih.startAll files).stop
  | elapse h _ ih => exact ih.elapse h

/-- At every moment there was one process after the other. -/
theorem Orderly.at_prefix (h : p.Orderly) {r : List ProcessEvent} (hr : r <+: p.host.record) :
  ∃ l, OneByOne (fun n => (p.host.behaviour n).starts) l r ∧ ∀ n, p.host.Live r n ↔ l = some n
  := by
  obtain ⟨l, hl⟩ := h.oneByOne.of_prefix hr
  use l, hl
  intro n
  rw [Host.live_iff]
  apply hl.live_iff n

/-- The live process is the one that the player has. -/
theorem Orderly.live_iff (h : p.Orderly) (n : Nat) :
  p.host.Live p.host.record n ↔ p.process = some n
  := by
  rw [Host.live_iff]
  apply h.oneByOne.live_iff n

theorem Orderly.idle (h : p.Orderly) (hp : p.process = none) :
  p.Idle
  := by
  intro n hn
  rw [h.live_iff n, hp] at hn
  cases hn

theorem Orderly.oneLive (h : p.Orderly) :
  p.OneLive
  where
  unique r m n hr hm hn := by
    obtain ⟨l, -, hlive⟩ := h.at_prefix hr
    rw [hlive] at hm hn
    apply Option.some.inj (hm.symm.trans hn)
  last r n hr hn := by
    obtain ⟨l, hl, hlive⟩ := h.at_prefix hr
    rw [hlive] at hn
    subst hn
    obtain ⟨q, args, -, -, -, rfl⟩ := hl.eq_started
    simp
  killedOnce := h.oneByOne.count_kill_le
  beforeAttempt r n args hr m hm := by
    obtain ⟨l, hl, -⟩ := h.at_prefix hr
    have hbefore := (hl.of_spawn.1.live_iff m).mp ((Host.live_iff ..).mp hm)
    cases hbefore
  afterFailure r n args hr hfail m hm := by
    obtain ⟨l, hl, hlive⟩ := h.at_prefix hr
    rw [hlive, hl.of_spawn.2, hfail] at hm
    cases hm
  playing hp := by
    rw [isPlaying] at hp
    split at hp
    · rename_i n hn
      exact ⟨n, (h.live_iff n).mpr hn⟩
    · cases hp

end Player

end Tunescript
