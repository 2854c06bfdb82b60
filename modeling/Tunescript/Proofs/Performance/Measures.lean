import Mathlib.Tactic.Common
import Tunescript.Performance.Run

/-!
# The measures of a transport

Which measure is being written, which one is the furthest and which one follows the latest
checkpoint depends on the checkpoints, bars and resets of a score alone: a command moves the
measures of the transport by its verb (`measures_step`), and so do the commands of a run
(`measures_run`).
-/

namespace Tunescript

/-- The measures that a transport counts. -/
structure Measures where
  /-- The measure that is being written. -/
  index : Int
  /-- The furthest measure that has been written. -/
  greatest : Int
  /-- The measure after the latest checkpoint. -/
  checkpoint : Int

namespace Measures

/-- Before the first command no measure has been written. -/
def initial : Measures := ⟨-1, -1, -1⟩

/-- The measures after a command. -/
def next (m : Measures) (c : Command) : Measures :=
  match c.verb with
  | .checkpoint => ⟨m.greatest, m.greatest, m.greatest + 1⟩
  | .measure => ⟨m.index + 1, max m.greatest (m.index + 1), m.checkpoint⟩
  | .reset => ⟨m.checkpoint - 1, m.greatest, m.checkpoint⟩
  | _ => m

/-- The measures after commands. -/
def after (m : Measures) (cs : List Command) : Measures := cs.foldl next m

@[simp]
theorem after_nil (m : Measures) :
  m.after [] = m
  := rfl

@[simp]
theorem after_cons (m : Measures) (c : Command) (cs : List Command) :
  m.after (c :: cs) = (m.next c).after cs
  := rfl

@[simp]
theorem after_append (m : Measures) (cs ds : List Command) :
  m.after (cs ++ ds) = (m.after cs).after ds
  := List.foldl_append

end Measures

variable {α : Type} [Scalar α]

namespace Transport

/-- The measures of a transport. -/
def measures (s : Transport α) : Measures := ⟨s.measureIndex, s.greatestIndex, s.checkpointIndex⟩

variable {s s' : Transport α} {noun : Text}

/-- A tempo is a quantity, and sets the beats in a second. -/
theorem setTempo_eq_ok (h : s.setTempo noun = .ok s') :
  ∃ bpm : α, NoteLength.quantity? noun = some bpm ∧
    s' = { s with beatsPerSecond := bpm / Scalar.ofInt 60 }
  := by
  rw [setTempo] at h
  split at h
  · rename_i bpm hquantity
    cases h
    exact ⟨bpm, hquantity, rfl⟩
  · cases h

/-- A time signature is two quantities, and sets the length of the measures. -/
theorem setTime_eq_ok (h : s.setTime noun = .ok s') :
  ∃ above below : α, readTime? noun = some (above, below) ∧
    s' = { s with
      timeSignature := above / below
      beatsPerMeasure := above
      measureDuration := above / s.beatsPerSecond }
  := by
  rw [setTime] at h
  split at h
  · cases h
  · rename_i above below htime
    split at h
    · cases h
    · cases h
      exact ⟨above, below, htime, rfl⟩

theorem measures_control {c : Command} (h : s.control c = .ok s') :
  s'.measures = s.measures.next c
  := by
  obtain ⟨verb, noun⟩ := c
  cases verb with
  | tempo =>
    obtain ⟨bpm, -, rfl⟩ := setTempo_eq_ok h
    rfl
  | time =>
    obtain ⟨above, below, -, rfl⟩ := setTime_eq_ok h
    rfl
  | _ =>
    cases h
    rfl

end Transport

namespace Performance

variable {playback : Playback} {p q : Performance α}

variable [Memory]

theorem transport_add {e : Event α} (h : p.add playback e = .ok q) :
  q.transport = p.transport.pass e
  := by
  rw [add] at h
  simp only [bind, Except.bind, pure, Except.pure] at h
  split at h
  · cases h
  · split at h
    · cases h
    · split at h
      · cases h
      · cases h
        rfl

/-- A command moves the measures by its verb. -/
theorem measures_step {c : Command} (h : step playback p c = .ok q) :
  q.transport.measures = p.transport.measures.next c
  := by
  obtain ⟨verb, noun⟩ := c
  cases verb with
  | note name =>
    rw [step] at h
    dsimp only at h
    split at h
    · cases h
    · rename_i e he
      cases hadd : p.add playback e with
      | error f =>
        rw [hadd] at h
        cases h
      | ok r =>
        rw [hadd] at h
        cases h
        rw [transport_add hadd]
        rfl
  | _ =>
    rw [step] at h
    dsimp only at h
    split at h
    · cases h
    · rename_i transport htransport
      cases h
      apply Transport.measures_control htransport

theorem measures_foldlM {cs : List Command} (h : cs.foldlM (step playback) p = .ok q) :
  q.transport.measures = p.transport.measures.after cs
  := by
  induction cs generalizing p with
  | nil =>
    cases h
    rfl
  | cons c cs ih =>
    rw [List.foldlM_cons] at h
    cases hstep : step playback p c with
    | error e =>
      rw [hstep] at h
      cases h
    | ok r =>
      rw [hstep] at h
      rw [ih h, measures_step hstep, Measures.after_cons]

/-- The commands of a run move the measures by their verbs. -/
theorem measures_run {cs : List Command} (h : run playback cs = .ok q) :
  q.transport.measures = Measures.initial.after cs
  := measures_foldlM h

/-- What can be played to its end can be played up to any command. -/
theorem exists_run_of_append {cs ds : List Command} (h : run playback (cs ++ ds) = .ok q) :
  ∃ p : Performance α, run playback cs = .ok p
  := by
  rw [run, List.foldlM_append, ← run] at h
  cases hrun : (run playback cs : Except RunError (Performance α)) with
  | error e =>
    rw [hrun] at h
    cases h
  | ok p => exact ⟨p, rfl⟩

end Performance

end Tunescript
