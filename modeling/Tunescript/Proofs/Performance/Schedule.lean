import Tunescript.Proofs.Performance.Measures
import Tunescript.Proofs.Score.Alike

/-!
# Schedules

Where the events of a score lie in time is told by the transport alone, before any of them sounds:
the schedule of a score holds the events that are placed up to the first command that makes no sense
(`schedule`).  A run sounds the events of the schedule one after the other.  It ends at the first
that cannot be sounded, else at the command that makes no sense, else with the performance of all of
them (`ends_run`); the first happens to no score all of whose events sound (`Ends.answers_iff`).
-/

namespace Tunescript

open Score (bind_eq_ok)

variable {α : Type} [Scalar α]

/-- The events that commands place, and the transport behind them. -/
structure Schedule (α : Type) where
  /-- The events up to the first command that makes no sense. -/
  events : List (Event α)
  /-- The transport behind the last command, or why one of them makes no sense. -/
  outcome : Except PlayError (Transport α)

namespace Transport

variable {s s' : Transport α} {c : Command} {cs : List Command}

/-- The event that a command places, if it plays a note, and the transport behind it. -/
def play (s : Transport α) (c : Command) : Except PlayError (List (Event α) × Transport α) :=
  match c.verb with
  | .note name =>
    match s.place name c.noun with
    | .error e => .error e
    | .ok event => .ok ([event], s.pass event)
  | _ =>
    match s.control c with
    | .error e => .error e
    | .ok s' => .ok ([], s')

/-- The schedule of commands from a state of the transport on. -/
def schedule (s : Transport α) : List Command → Schedule α
  | [] => ⟨[], .ok s⟩
  | c :: cs =>
    match s.play c with
    | .error e => ⟨[], .error e⟩
    | .ok (events, s') => ⟨events ++ (schedule s' cs).events, (schedule s' cs).outcome⟩

theorem schedule_nil (s : Transport α) :
  s.schedule [] = ⟨[], .ok s⟩
  := rfl

theorem schedule_cons_of_ok {events : List (Event α)} (h : s.play c = .ok (events, s')) :
  s.schedule (c :: cs) = ⟨events ++ (s'.schedule cs).events, (s'.schedule cs).outcome⟩
  := by
  rw [schedule, h]

theorem schedule_cons_of_error {e : PlayError} (h : s.play c = .error e) :
  s.schedule (c :: cs) = ⟨[], .error e⟩
  := by
  rw [schedule, h]

/-- Commands that make sense start with one that does, and the others do behind it. -/
theorem schedule_cons_eq_ok (h : (s.schedule (c :: cs)).outcome = .ok s') :
  ∃ events t, s.play c = .ok (events, t) ∧ (t.schedule cs).outcome = .ok s' ∧
    (s.schedule (c :: cs)).events = events ++ (t.schedule cs).events
  := by
  cases hplay : s.play c with
  | error e =>
    rw [schedule_cons_of_error hplay] at h
    cases h
  | ok r =>
    obtain ⟨events, t⟩ := r
    rw [schedule_cons_of_ok hplay] at h ⊢
    exact ⟨events, t, rfl, h, rfl⟩

/-- Behind commands that make sense the schedule goes on from the transport that they leave. -/
theorem schedule_append (h : (s.schedule cs).outcome = .ok s') (ds : List Command) :
  s.schedule (cs ++ ds) =
    ⟨(s.schedule cs).events ++ (s'.schedule ds).events, (s'.schedule ds).outcome⟩
  := by
  induction cs generalizing s with
  | nil =>
    cases h
    rfl
  | cons c cs ih =>
    obtain ⟨events, t, hplay, h, -⟩ := schedule_cons_eq_ok h
    rw [List.cons_append, schedule_cons_of_ok hplay, schedule_cons_of_ok hplay, ih h,
      List.append_assoc]

/-- A command that makes no sense ends the schedule. -/
theorem schedule_append_of_error {e : PlayError} (h : (s.schedule cs).outcome = .error e)
    (ds : List Command) :
  s.schedule (cs ++ ds) = s.schedule cs
  := by
  induction cs generalizing s with
  | nil => cases h
  | cons c cs ih =>
    cases hplay : s.play c with
    | error e =>
      rw [List.cons_append, schedule_cons_of_error hplay, schedule_cons_of_error hplay]
    | ok r =>
      obtain ⟨events, t⟩ := r
      rw [schedule_cons_of_ok hplay] at h
      rw [List.cons_append, schedule_cons_of_ok hplay, schedule_cons_of_ok hplay, ih h]

/-- Commands that make sense do so part by part. -/
theorem schedule_append_eq_ok {ds : List Command}
    (h : (s.schedule (cs ++ ds)).outcome = .ok s') :
  ∃ t, (s.schedule cs).outcome = .ok t ∧ (t.schedule ds).outcome = .ok s' ∧
    (s.schedule (cs ++ ds)).events = (s.schedule cs).events ++ (t.schedule ds).events
  := by
  cases hcs : (s.schedule cs).outcome with
  | error e =>
    rw [schedule_append_of_error hcs, hcs] at h
    cases h
  | ok t =>
    rw [schedule_append hcs] at h ⊢
    exact ⟨t, rfl, h, rfl⟩

/-- A note that makes sense has a frequency and a length and is placed where the transport
stands. -/
theorem place_eq_ok {name noun : Text} {e : Event α} (h : s.place name noun = .ok e) :
  ∃ (frequency : Float) (length : NoteLength α), Pitch.frequency? name = some frequency ∧
    NoteLength.read noun = .ok length ∧ Scalar.isZero s.timeSignature = false ∧
    e = {
      name := name
      frequency := frequency
      voice := s.voice
      start := s.measureStart + s.offset
      duration := s.measureDuration * (length.numerator / length.denominator / s.timeSignature) *
        NoteLength.dotFactor length.dots
      measureIndex := s.measureIndex }
  := by
  rw [place] at h
  cases hfrequency : Pitch.frequency? name with
  | none =>
    rw [hfrequency] at h
    cases h
  | some frequency =>
    cases hlength : (NoteLength.read noun : Except LengthError (NoteLength α)) with
    | error e =>
      rw [hfrequency, hlength] at h
      cases h
    | ok length =>
      cases hzero : Scalar.isZero s.timeSignature with
      | true =>
        rw [hfrequency, hlength, hzero] at h
        cases h
      | false =>
        rw [hfrequency, hlength, hzero] at h
        cases h
        exact ⟨frequency, length, rfl, rfl, rfl, rfl⟩

section Played

variable {events : List (Event α)}

/-- A command that makes sense is a note that is placed, or it places nothing. -/
theorem play_eq_ok (h : s.play c = .ok (events, s')) :
  (∃ name e, c.verb = .note name ∧ s.place name c.noun = .ok e ∧ events = [e] ∧ s' = s.pass e) ∨
    (c.verb.isNote = false ∧ events = [] ∧ s.control c = .ok s')
  := by
  obtain ⟨verb, noun⟩ := c
  rw [play] at h
  cases verb with
  | note name =>
    dsimp only at h
    split at h
    · cases h
    · rename_i e hplace
      cases h
      exact .inl ⟨name, e, rfl, hplace, rfl, rfl⟩
  | _ =>
    dsimp only at h
    split at h
    · cases h
    · rename_i hcontrol
      cases h
      exact .inr ⟨rfl, rfl, hcontrol⟩

/-- Only a note places an event, and it places one. -/
theorem length_events_of_play (h : s.play c = .ok (events, s')) :
  events.length = if c.verb.isNote then 1 else 0
  := by
  obtain ⟨name, e, hverb, -, rfl, -⟩ | ⟨hcontrol, rfl, -⟩ := play_eq_ok h
  · rw [hverb]
    rfl
  · rw [hcontrol]
    rfl

/-- A command moves the measures of the transport by its verb. -/
theorem measures_play (h : s.play c = .ok (events, s')) :
  s'.measures = s.measures.next c
  := by
  obtain ⟨name, e, hverb, -, -, rfl⟩ | ⟨-, -, hcontrol⟩ := play_eq_ok h
  · rw [Measures.next, hverb]
    rfl
  · apply measures_control hcontrol

/-- A bar starts a measure where its index says, and any other command leaves the start as it is. -/
theorem measureStart_play (h : s.play c = .ok (events, s')) :
  s'.measureStart =
    if c.verb = .measure then s.measureDuration * Scalar.ofInt (s.measureIndex + 1)
    else s.measureStart
  := by
  obtain ⟨verb, noun⟩ := c
  obtain ⟨name, e, rfl, -, -, rfl⟩ | ⟨hnote, -, hcontrol⟩ := play_eq_ok h
  · rfl
  · cases verb with
    | note name => cases hnote
    | tempo =>
      obtain ⟨bpm, -, rfl⟩ := setTempo_eq_ok hcontrol
      rfl
    | time =>
      obtain ⟨above, below, -, rfl⟩ := setTime_eq_ok hcontrol
      rfl
    | _ =>
      cases hcontrol
      rfl

/-- A bar empties the measure, and any other command fills it with the events that it places. -/
theorem offset_play (h : s.play c = .ok (events, s')) :
  s'.offset =
    if c.verb = .measure then Scalar.zero else (events.map Event.duration).foldl (· + ·) s.offset
  := by
  obtain ⟨verb, noun⟩ := c
  obtain ⟨name, e, rfl, -, rfl, rfl⟩ | ⟨hnote, rfl, hcontrol⟩ := play_eq_ok h
  · rfl
  · cases verb with
    | note name => cases hnote
    | tempo =>
      obtain ⟨bpm, -, rfl⟩ := setTempo_eq_ok hcontrol
      rfl
    | time =>
      obtain ⟨above, below, -, rfl⟩ := setTime_eq_ok hcontrol
      rfl
    | _ =>
      cases hcontrol
      rfl

end Played

/-- Commands that make sense place as many events as there are notes among them. -/
theorem length_events_schedule (h : (s.schedule cs).outcome = .ok s') :
  (s.schedule cs).events.length = cs.countP fun c => c.verb.isNote
  := by
  induction cs generalizing s with
  | nil => rfl
  | cons c cs ih =>
    obtain ⟨events, t, hplay, h, hevents⟩ := schedule_cons_eq_ok h
    rw [hevents, List.length_append, ih h, length_events_of_play hplay, List.countP_cons,
      Nat.add_comm]

/-- Commands that make sense move the measures of the transport by their verbs. -/
theorem measures_schedule (h : (s.schedule cs).outcome = .ok s') :
  s'.measures = s.measures.after cs
  := by
  induction cs generalizing s with
  | nil =>
    cases h
    rfl
  | cons c cs ih =>
    obtain ⟨events, t, hplay, h, -⟩ := schedule_cons_eq_ok h
    rw [ih h, measures_play hplay, Measures.after_cons]

end Transport

namespace Event

variable [Memory]

/-- The sample at which an event starts and the number of its samples, if there can be a track up to
its end. -/
def span (e : Event α) (playback : Playback) : Except ArithmeticFault (Nat × Nat) := do
  let count ← sampleCount playback.rate e.duration
  let first ← e.firstSample playback.rate
  let _ ← Capacity.ofTrack (first + count)
  return (first, count)

/-- The event can be sounded. -/
def Sounds (playback : Playback) (e : Event α) : Prop := ∃ r, e.span playback = .ok r

instance (playback : Playback) (e : Event α) : Decidable (e.Sounds playback) :=
  match h : e.span playback with
  | .ok r => isTrue ⟨r, h⟩
  | .error _ => isFalse fun ⟨_, hr⟩ => nomatch h.symm.trans hr

end Event

namespace Performance

variable {playback : Playback} {p q : Performance α} {c : Command} {cs : List Command}

/-- The performance with an event mixed in from a sample on. -/
def mixed (p : Performance α) (playback : Playback) (e : Event α) (first count : Nat) :
    Performance α where
  transport := p.transport.pass e
  track := p.track.mix first (e.samples playback count)
  events := p.events ++ [e]

variable [Memory]

theorem add_eq (p : Performance α) (playback : Playback) (e : Event α) :
  p.add playback e = (e.span playback).map fun r => p.mixed playback e r.1 r.2
  := by
  rw [add, Event.span]
  cases sampleCount playback.rate e.duration with
  | error f => rfl
  | ok count =>
    cases e.firstSample playback.rate with
    | error f => rfl
    | ok first =>
      simp only [bind, Except.bind, pure, Except.pure]
      cases Capacity.ofTrack (first + count) with
      | error f => rfl
      | ok n => rfl

/-- How commands that are played behind a performance end, told by their schedule. -/
inductive Ends (playback : Playback) (p : Performance α) (s : Schedule α) :
    Except RunError (Performance α) → Prop
  /-- All commands make sense and all events sound. -/
  | played {q : Performance α} (hsound : ∀ e ∈ s.events, e.Sounds playback)
    (htransport : s.outcome = .ok q.transport) (hevents : q.events = p.events ++ s.events) :
    Ends playback p s (.ok q)
  /-- All events sound that are placed before a command that makes no sense. -/
  | refused {e : PlayError} (hsound : ∀ e ∈ s.events, e.Sounds playback)
    (houtcome : s.outcome = .error e) : Ends playback p s (.error (.play e))
  /-- An event cannot be sounded, and those before it sound. -/
  | fault {before after : List (Event α)} {e : Event α} {f : ArithmeticFault}
    (hevents : s.events = before ++ e :: after) (hsound : ∀ e ∈ before, e.Sounds playback)
    (hfault : e.span playback = .error f) : Ends playback p s (.error (.arithmetic f))

/-- Behind a command that plays no note, the commands end as their schedule tells. -/
theorem Ends.control {s : Schedule α} {o : Except RunError (Performance α)} {t : Transport α}
    (h : Ends playback { p with transport := t } s o) :
  Ends playback p s o
  := by
  cases h with
  | played hsound htransport hevents => exact .played hsound htransport hevents
  | refused hsound houtcome => exact .refused hsound houtcome
  | fault hevents hsound hfault => exact .fault hevents hsound hfault

/-- Behind an event that sounds, the commands end as their schedule tells. -/
theorem Ends.note {s : Schedule α} {o : Except RunError (Performance α)} {e : Event α}
    {first count : Nat} (he : e.span playback = .ok (first, count))
    (h : Ends playback (p.mixed playback e first count) s o) :
  Ends playback p ⟨e :: s.events, s.outcome⟩ o
  := by
  have hsounds : e.Sounds playback := ⟨_, he⟩
  cases h with
  | played hsound htransport hevents =>
    refine .played (List.forall_mem_cons.mpr ⟨hsounds, hsound⟩) htransport ?_
    rw [hevents, mixed, List.append_assoc]
    rfl
  | refused hsound houtcome =>
    exact .refused (List.forall_mem_cons.mpr ⟨hsounds, hsound⟩) houtcome
  | @fault before after d f hevents hsound hfault =>
    have hsplit : e :: s.events = (e :: before) ++ d :: after := by rw [hevents, List.cons_append]
    exact .fault hsplit (List.forall_mem_cons.mpr ⟨hsounds, hsound⟩) hfault

/-- Commands that are played behind a performance end as the schedule from its transport tells. -/
theorem ends_foldlM (playback : Playback) (p : Performance α) (cs : List Command) :
  Ends playback p (p.transport.schedule cs) (cs.foldlM (step playback) p)
  := by
  induction cs generalizing p with
  | nil =>
    apply Ends.played (List.forall_mem_nil _) rfl
    rw [Transport.schedule_nil, List.append_nil]
  | cons c cs ih =>
    rw [List.foldlM_cons]
    obtain ⟨verb, noun⟩ := c
    cases verb with
    | note name =>
      rw [Transport.schedule, Transport.play, step]
      dsimp only
      cases p.transport.place name noun with
      | error e => exact .refused (List.forall_mem_nil _) rfl
      | ok event =>
        dsimp only
        rw [add_eq]
        cases hspan : event.span playback with
        | error f => exact .fault (List.nil_append _).symm (List.forall_mem_nil _) hspan
        | ok r => apply Ends.note hspan (ih _)
    | _ =>
      rw [Transport.schedule, Transport.play, step]
      dsimp only
      cases p.transport.control _ with
      | error e => exact .refused (List.forall_mem_nil _) rfl
      | ok t => apply Ends.control (ih { p with transport := t })

/-- Commands end with a performance or at a command that makes no sense exactly if every event that
they place sounds. -/
theorem Ends.answers_iff {s : Schedule α} {o : Except RunError (Performance α)}
    (h : Ends playback p s o) :
  ((∃ q, o = .ok q) ∨ ∃ e, o = .error (.play e)) ↔ ∀ e ∈ s.events, e.Sounds playback
  := by
  cases h with
  | played hsound => simpa using hsound
  | refused hsound => simpa using hsound
  | @fault before after e f hevents hsound hfault =>
    have hmem : e ∈ s.events := by simp [hevents]
    have hsilent : ¬e.Sounds playback := by
      rintro ⟨r, hr⟩
      rw [hfault] at hr
      cases hr
    simpa using ⟨e, hmem, hsilent⟩

/-- A run ends as the schedule of its commands tells. -/
theorem ends_run (playback : Playback) (cs : List Command) :
  Ends playback initial (Transport.initial.schedule cs)
    (run playback cs : Except RunError (Performance α))
  := ends_foldlM playback initial cs

/-- A run that ends with a performance has sounded its whole schedule. -/
theorem schedule_of_run (h : run playback cs = .ok p) :
  Transport.initial.schedule cs = ⟨p.events, .ok p.transport⟩ ∧ ∀ e ∈ p.events, e.Sounds playback
  := by
  have hends := ends_run playback cs (α := α)
  rw [h] at hends
  generalize hs : (Transport.initial.schedule cs : Schedule α) = s at hends ⊢
  obtain ⟨events, outcome⟩ := s
  cases hends with
  | played hsound houtcome hevents =>
    obtain rfl : p.events = events := hevents
    obtain rfl : outcome = .ok p.transport := houtcome
    exact ⟨rfl, hsound⟩

/-- What stands behind commands is scheduled from where they leave the transport. -/
theorem schedule_of_run_append {ds : List Command} (hq : run playback cs = .ok q)
    (h : run playback (cs ++ ds) = .ok p) :
  (q.transport.schedule ds).outcome = .ok p.transport ∧
    p.events = q.events ++ (q.transport.schedule ds).events
  := by
  obtain ⟨hcs, -⟩ := schedule_of_run hq
  obtain ⟨hall, -⟩ := schedule_of_run h
  rw [Transport.schedule_append (congrArg Schedule.outcome hcs), hcs] at hall
  obtain ⟨hevents, houtcome⟩ := Schedule.mk.inj hall
  exact ⟨houtcome, hevents.symm⟩

/-- The event of a note in a performance is the one that the transport behind the commands before
places. -/
theorem event_of_run {ds : List Command} {name noun : Text}
    (h : run playback (cs ++ ⟨.note name, noun⟩ :: ds) = .ok p) :
  ∃ s e, (Transport.initial.schedule cs).outcome = .ok s ∧ s.place name noun = .ok e ∧
    p.events[cs.countP fun c => c.verb.isNote]? = some e
  := by
  obtain ⟨hschedule, -⟩ := schedule_of_run h
  obtain ⟨s, hs, hrest, hevents⟩ :=
    Transport.schedule_append_eq_ok (congrArg Schedule.outcome hschedule)
  obtain ⟨events, t, hplay, -, hfirst⟩ := Transport.schedule_cons_eq_ok hrest
  rw [hschedule, hfirst] at hevents
  dsimp only at hevents
  obtain ⟨_, e, hverb, hplace, rfl, -⟩ | ⟨hcontrol, -⟩ := Transport.play_eq_ok hplay
  · cases hverb
    refine ⟨s, e, hs, hplace, ?_⟩
    rw [hevents, ← Transport.length_events_schedule hs]
    simp
  · cases hcontrol

/-- A performance has an event for each note. -/
theorem length_events_of_run (h : run playback cs = .ok p) :
  p.events.length = cs.countP fun c => c.verb.isNote
  := by
  have hschedule := (schedule_of_run h).1
  rw [← Transport.length_events_schedule (congrArg Schedule.outcome hschedule), hschedule]

/-- Commands that make sense and all of whose events sound are performed. -/
theorem exists_run (houtcome : (Transport.initial.schedule cs : Schedule α).outcome.isOk)
    (hsound : ∀ e ∈ (Transport.initial.schedule cs : Schedule α).events, e.Sounds playback) :
  ∃ p : Performance α, run playback cs = .ok p
  := by
  have hends := ends_run playback cs (α := α)
  obtain hplayed | ⟨e, he⟩ := hends.answers_iff.mpr hsound
  · apply hplayed
  · rw [he] at hends
    cases hends with
    | refused _ hrefused =>
      rw [hrefused] at houtcome
      cases houtcome

/-- Commands give a performance exactly if they make sense and all of their events sound. -/
theorem exists_run_iff :
  (∃ p : Performance α, run playback cs = .ok p) ↔
    (Transport.initial.schedule cs : Schedule α).outcome.isOk ∧
      ∀ e ∈ (Transport.initial.schedule cs : Schedule α).events, e.Sounds playback
  := by
  constructor
  · rintro ⟨p, h⟩
    obtain ⟨hschedule, hsound⟩ := schedule_of_run h
    rw [hschedule]
    exact ⟨rfl, hsound⟩
  · rintro ⟨houtcome, hsound⟩
    apply exists_run houtcome hsound

end Performance

end Tunescript
