import Tunescript.Proofs.Performance.Schedule

/-!
# Settings

How a note sounds is told by its name, its voice and its length, wherever it is placed.  Of all that
commands leave behind, the notes that follow hear the setting alone: the tempo, the time signature,
the length of a measure and the voice (`Transport.heard_schedule_congr`).  The setting behind a
score is that of its last directions (`Directions.setting_of_schedule`).
-/

namespace Tunescript

variable {α : Type}

/-- What is heard of an event, wherever it is placed. -/
structure Heard (α : Type) where
  /-- The name of the note. -/
  name : Text
  /-- The voice that plays it. -/
  voice : Text
  /-- The length in seconds. -/
  duration : α

/-- What is heard of an event. -/
def Event.heard (e : Event α) : Heard α := ⟨e.name, e.voice, e.duration⟩

/-- What the notes that follow take from the transport, apart from their places. -/
structure Setting (α : Type) where
  /-- The tempo. -/
  beatsPerSecond : α
  /-- The length of a measure in whole notes. -/
  timeSignature : α
  /-- The length of a measure in seconds. -/
  measureDuration : α
  /-- The voice. -/
  voice : Text

/-- The setting of a state of the transport. -/
def Transport.setting (s : Transport α) : Setting α :=
  ⟨s.beatsPerSecond, s.timeSignature, s.measureDuration, s.voice⟩

/-- What is heard of a schedule, and the setting that it leaves. -/
def Schedule.heard (x : Schedule α) : List (Heard α) × Except PlayError (Setting α) :=
  (x.events.map Event.heard, x.outcome.map Transport.setting)

variable [Scalar α]

namespace Transport

variable {s s' : Transport α}

/-- What is heard of a command, and the setting behind it. -/
def heardOf (s : Transport α) (c : Command) : Except PlayError (List (Heard α) × Setting α) :=
  (s.play c).map fun r => (r.1.map Event.heard, r.2.setting)

theorem heard_schedule_cons (s : Transport α) (c : Command) (cs : List Command) :
  (s.schedule (c :: cs)).heard =
    match s.play c with
    | .error e => ([], .error e)
    | .ok (events, s') =>
      (events.map Event.heard ++ (s'.schedule cs).heard.1, (s'.schedule cs).heard.2)
  := by
  rw [schedule]
  cases s.play c with
  | error e => rfl
  | ok r =>
    dsimp only
    rw [Schedule.heard, List.map_append]
    rfl

/-- In one setting a command is heard alike, and it leaves one setting. -/
theorem heardOf_congr (h : s.setting = s'.setting) (c : Command) :
  s.heardOf c = s'.heardOf c
  := by
  obtain ⟨hbeats, htime, hmeasure, hvoice⟩ := Setting.mk.inj h
  obtain ⟨verb, noun⟩ := c
  rw [heardOf, heardOf, play, play]
  cases verb with
  | note name =>
    dsimp only
    rw [place, place, htime, hmeasure, hvoice]
    cases Pitch.frequency? name with
    | none => rfl
    | some frequency =>
      cases (NoteLength.read noun : Except LengthError (NoteLength α)) with
      | error e => rfl
      | ok length =>
        dsimp only
        cases Scalar.isZero s'.timeSignature with
        | true => rfl
        | false => exact congrArg (fun g => Except.ok ([_], g)) h
  | tempo =>
    dsimp only [control]
    rw [setTempo, setTempo]
    cases (NoteLength.quantity? noun : Option α) with
    | none => rfl
    | some bpm => simp only [Except.map, setting, htime, hmeasure, hvoice]
  | time =>
    dsimp only [control]
    rw [setTime, setTime, hbeats]
    cases (readTime? noun : Option (α × α)) with
    | none => rfl
    | some r =>
      dsimp only
      cases Scalar.isZero r.2 || Scalar.isZero s'.beatsPerSecond with
      | true => rfl
      | false => simp [Except.map, setting, hvoice]
  | voice => simp only [control, Except.map, setting, hbeats, htime, hmeasure]
  | _ => apply congrArg Except.ok (congrArg _ h)

/-- In one setting commands are heard alike. -/
theorem heard_schedule_congr (h : s.setting = s'.setting) (cs : List Command) :
  (s.schedule cs).heard = (s'.schedule cs).heard
  := by
  induction cs generalizing s s' with
  | nil =>
    rw [schedule_nil, schedule_nil]
    apply congrArg (fun g => ([], Except.ok g)) h
  | cons c cs ih =>
    have hc := heardOf_congr h c
    rw [heardOf, heardOf] at hc
    rw [heard_schedule_cons, heard_schedule_cons]
    cases hplay : s.play c with
    | error e =>
      cases hplay' : s'.play c with
      | error e' =>
        rw [hplay, hplay'] at hc
        cases hc
        rfl
      | ok r' =>
        rw [hplay, hplay'] at hc
        cases hc
    | ok r =>
      cases hplay' : s'.play c with
      | error e' =>
        rw [hplay, hplay'] at hc
        cases hc
      | ok r' =>
        rw [hplay, hplay'] at hc
        obtain ⟨hevents, hsetting⟩ := Prod.mk.inj (Except.ok.inj hc)
        dsimp only
        rw [hevents, ih hsetting]

end Transport

/-- The last tempo, the last time signature with the tempo under which it was set, and the last
voice that commands name. -/
structure Directions where
  /-- The last tempo. -/
  tempo : Option Text := none
  /-- The last time signature and the last tempo before it. -/
  time : Option (Text × Option Text) := none
  /-- The last voice. -/
  voice : Option Text := none
deriving DecidableEq, Repr

namespace Directions

/-- The directions after a command. -/
def after (d : Directions) (c : Command) : Directions :=
  match c.verb with
  | .tempo => { d with tempo := some c.noun }
  | .time => { d with time := some (c.noun, d.tempo) }
  | .voice => { d with voice := some c.noun }
  | _ => d

/-- The directions that commands give. -/
def ofCommands (cs : List Command) : Directions := cs.foldl after {}

/-- The beats in a second that a tempo sets, one if there is none. -/
def beats (tempo : Option Text) : α :=
  match tempo with
  | none => Scalar.ofInt 1
  | some noun =>
    match (NoteLength.quantity? noun : Option α) with
    | some bpm => bpm / Scalar.ofInt 60
    | none => Scalar.ofInt 1

/-- The setting that directions make. -/
def setting (d : Directions) : Setting α :=
  match d.time.bind fun t => (Transport.readTime? t.1 : Option (α × α)).map (·, t.2) with
  | none => ⟨beats d.tempo, Scalar.ofInt 1, Scalar.ofInt 4, d.voice.getD Oscillator.defaultVoice⟩
  | some ((above, below), tempo) =>
    ⟨beats d.tempo, above / below, above / beats tempo, d.voice.getD Oscillator.defaultVoice⟩

variable {d : Directions} {s s' : Transport α}

theorem setting_tempo (d : Directions) (noun : Text) :
  ({ d with tempo := some noun }).setting =
    { (d.setting : Setting α) with beatsPerSecond := beats (some noun) }
  := by
  rw [setting, setting]
  dsimp only
  split <;> rfl

theorem setting_voice (d : Directions) (noun : Text) :
  ({ d with voice := some noun }).setting = { (d.setting : Setting α) with voice := noun }
  := by
  rw [setting, setting]
  dsimp only
  split <;> rfl

theorem setting_time {noun : Text} {above below : α}
    (h : Transport.readTime? noun = some (above, below)) :
  ({ d with time := some (noun, d.tempo) }).setting =
    ⟨beats d.tempo, above / below, above / beats d.tempo, (d.setting : Setting α).voice⟩
  := by
  rw [setting, setting]
  dsimp only [Option.bind_some]
  rw [h, Option.map_some]
  dsimp only
  split <;> rfl

theorem beatsPerSecond_setting (d : Directions) :
  (d.setting : Setting α).beatsPerSecond = beats d.tempo
  := by
  rw [setting]
  split <;> rfl

theorem voice_setting (d : Directions) :
  (d.setting : Setting α).voice = d.voice.getD Oscillator.defaultVoice
  := by
  rw [setting]
  split <;> rfl

/-- A command that makes sense changes the setting as it changes the directions. -/
theorem setting_play {c : Command} {events : List (Event α)} (hs : s.setting = d.setting)
    (h : s.play c = .ok (events, s')) :
  s'.setting = (d.after c).setting
  := by
  obtain ⟨verb, noun⟩ := c
  rw [after]
  obtain ⟨name, e, rfl, -, -, rfl⟩ | ⟨hnote, -, hcontrol⟩ := Transport.play_eq_ok h
  · apply hs
  · cases verb with
    | note name => cases hnote
    | tempo =>
      obtain ⟨bpm, hquantity, rfl⟩ := Transport.setTempo_eq_ok hcontrol
      dsimp only
      rw [setting_tempo, ← hs, beats, hquantity]
      rfl
    | time =>
      obtain ⟨above, below, htime, rfl⟩ := Transport.setTime_eq_ok hcontrol
      dsimp only
      rw [setting_time htime, ← beatsPerSecond_setting, ← hs]
      rfl
    | voice =>
      cases hcontrol
      dsimp only
      rw [setting_voice, ← hs]
      rfl
    | _ =>
      cases hcontrol
      apply hs

theorem setting_schedule {cs : List Command} (hs : s.setting = d.setting)
    (h : (s.schedule cs).outcome = .ok s') :
  s'.setting = (cs.foldl after d).setting
  := by
  induction cs generalizing s d with
  | nil =>
    cases h
    apply hs
  | cons c cs ih =>
    obtain ⟨events, t, hplay, h, -⟩ := Transport.schedule_cons_eq_ok h
    apply ih (setting_play hs hplay) h

/-- The setting behind a score is that of its directions. -/
theorem setting_of_schedule {cs : List Command}
    (h : (Transport.initial.schedule cs).outcome = .ok s) :
  s.setting = (ofCommands cs).setting
  := setting_schedule rfl h

end Directions

variable [Memory]

/-- In a performance the last commands are heard as from the transport behind those before them. -/
theorem Performance.heard_schedule_of_run {playback : Playback} {cs ds : List Command}
    {p : Performance α} (h : Performance.run playback (cs ++ ds) = .ok p) :
  ∃ s, (Transport.initial.schedule cs).outcome = .ok s ∧
    (s.schedule ds).heard =
      ((p.events.drop (cs.countP fun c => c.verb.isNote)).map Event.heard, .ok p.transport.setting)
  := by
  obtain ⟨hschedule, -⟩ := Performance.schedule_of_run h
  obtain ⟨s, hs, hok, hevents⟩ :=
    Transport.schedule_append_eq_ok (congrArg Schedule.outcome hschedule)
  rw [hschedule] at hevents
  dsimp only at hevents
  use s, hs
  rw [hevents, ← Transport.length_events_schedule hs, List.drop_left, Schedule.heard, hok]
  rfl

/-- The commands go on from a state of the transport to the end, and this is heard of their
events. -/
def Continues (playback : Playback) (s : Transport α) (cs : List Command) (hs : List (Heard α)) :
    Prop :=
  (∃ g, (s.schedule cs).heard = (hs, .ok g)) ∧ ∀ e ∈ (s.schedule cs).events, e.Sounds playback

/-- A run gives a performance of which this is heard exactly if its commands go on so from the
start. -/
theorem continues_initial_iff {playback : Playback} {cs : List Command} {hs : List (Heard α)} :
  (∃ p, Performance.run playback cs = .ok p ∧ p.events.map Event.heard = hs) ↔
    Continues playback Transport.initial cs hs
  := by
  constructor
  · rintro ⟨p, hrun, rfl⟩
    obtain ⟨hschedule, hsound⟩ := Performance.schedule_of_run hrun
    rw [Continues, hschedule]
    exact ⟨⟨p.transport.setting, rfl⟩, hsound⟩
  · rintro ⟨⟨g, hg⟩, hsound⟩
    obtain ⟨hheard, hsetting⟩ := Prod.mk.inj hg
    obtain ⟨t, ht, -⟩ := Score.map_eq_ok hsetting
    have hok : (Transport.initial.schedule cs : Schedule α).outcome.isOk := by
      rw [ht]
      rfl
    obtain ⟨p, hrun⟩ := Performance.exists_run hok hsound
    use p, hrun
    rw [← hheard, (Performance.schedule_of_run hrun).1]

end Tunescript
