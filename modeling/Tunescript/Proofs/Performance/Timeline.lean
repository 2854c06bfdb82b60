import Mathlib.Tactic.Ring
import Tunescript.Proofs.Number.Rational
import Tunescript.Proofs.Performance.EventMeasures
import Tunescript.Proofs.Performance.Starts

/-!
# Notes end to end

In exact arithmetic the notes behind a bar follow one another without a gap from the start of its
measure on (`Transport.endToEnd_schedule`), and those whose lengths add up to the time signature
take the measure (`Transport.sum_duration_of_sum_wholes`), so that the next one starts where they
end.  Start and length of a note are rounded down to samples each on its own, which leaves at most
one sample between two notes (`floor_adjoin`).  So the notes of a run tile its measures
(`Performance.tilesMeasure_of_run`).
-/

namespace Tunescript

open Score (bind_eq_ok)

/-- Events follow one another from one time to another, each from the end of the one before it. -/
inductive EndToEnd : Rat → List (Event Rat) → Rat → Prop
  /-- No event takes no time. -/
  | nil {x : Rat} : EndToEnd x [] x
  /-- An event in front of those that start at its end. -/
  | cons {x y : Rat} {e : Event Rat} {events : List (Event Rat)} (hstart : e.start = x)
    (h : EndToEnd (x + e.duration) events y) : EndToEnd x (e :: events) y

namespace EndToEnd

variable {x y z : Rat} {e e' : Event Rat} {events events' : List (Event Rat)} {k : Nat}

theorem append (h : EndToEnd x events y) (h' : EndToEnd y events' z) :
  EndToEnd x (events ++ events') z
  := by
  induction h with
  | nil => exact h'
  | cons hstart _ ih => exact .cons hstart (ih h')

/-- Events reach as far as their durations add up to. -/
theorem stop_eq (h : EndToEnd x events y) :
  y = x + (events.map Event.duration).sum
  := by
  induction h with
  | nil => exact (add_zero _).symm
  | cons _ _ ih => rw [ih, List.map_cons, List.sum_cons, add_assoc]

/-- An event starts where the durations of those before it add up to. -/
theorem start_eq (h : EndToEnd x events y) (hk : events[k]? = some e) :
  e.start = x + ((events.take k).map Event.duration).sum
  := by
  induction h generalizing k with
  | nil => cases hk
  | cons hstart _ ih =>
    cases k with
    | zero =>
      cases hk
      exact hstart.trans (add_zero _).symm
    | succ k => rw [ih hk, List.take_succ_cons, List.map_cons, List.sum_cons, add_assoc]

theorem start_next (h : EndToEnd x events y) (hk : events[k]? = some e)
    (hnext : events[k + 1]? = some e') :
  e'.start = e.start + e.duration
  := by
  rw [h.start_eq hnext, h.start_eq hk, List.take_add_one, hk, Option.toList_some, List.map_append,
    List.sum_append, List.map_singleton, List.sum_singleton, add_assoc]

/-- The last event ends where the events reach. -/
theorem stop_getLast? (h : EndToEnd x events y) (hlast : events.getLast? = some e) :
  e.start + e.duration = y
  := by
  obtain ⟨es, rfl⟩ := List.getLast?_eq_some_iff.mp hlast
  rw [h.start_eq List.getElem?_concat_length, h.stop_eq, List.take_left, List.map_append,
    List.sum_append, List.map_singleton, List.sum_singleton, add_assoc]

/-- Events that do not go backwards start nowhere before the first time. -/
theorem le_start (h : EndToEnd x events y) (hduration : ∀ e ∈ events, 0 ≤ e.duration) :
  ∀ e ∈ events, x ≤ e.start
  := by
  induction h with
  | nil => simp
  | cons hstart _ ih =>
    obtain ⟨he, hes⟩ := List.forall_mem_cons.mp hduration
    refine List.forall_mem_cons.mpr ⟨hstart.ge, fun f hf => ?_⟩
    exact (le_add_of_nonneg_right he).trans (ih hes f hf)

end EndToEnd

/-- The length of a note in whole notes, its dots included, and none for any other command. -/
def Command.wholes (c : Command) : Rat :=
  match c.verb with
  | .note _ =>
    match (NoteLength.read c.noun : Except LengthError (NoteLength Rat)) with
    | .ok length => length.numerator / length.denominator * NoteLength.dotFactor length.dots
    | .error _ => 0
  | _ => 0

/-- None of the commands changes the tempo or the time signature. -/
def Steady (cs : List Command) : Prop := ∀ c ∈ cs, c.verb ≠ .tempo ∧ c.verb ≠ .time

namespace Transport

section Steps

variable {s s' : Transport Rat} {c : Command} {events : List (Event Rat)}

/-- A command that is no bar places what it plays where the transport stands, which moves on to its
end. -/
theorem endToEnd_play (hc : c.verb ≠ .measure) (h : s.play c = .ok (events, s')) :
  EndToEnd (s.measureStart + s.offset) events (s'.measureStart + s'.offset)
  := by
  rw [measureStart_play h, if_neg hc, offset_play h, if_neg hc]
  obtain ⟨name, e, -, hplace, rfl, -⟩ | ⟨-, rfl, -⟩ := play_eq_ok h
  · obtain ⟨frequency, length, -, -, -, he⟩ := place_eq_ok hplace
    have hstart : e.start = s.measureStart + s.offset := by rw [he]
    rw [List.map_singleton, List.foldl_cons, List.foldl_nil, ← add_assoc]
    exact .cons hstart .nil
  · apply EndToEnd.nil

/-- A command that is no time signature leaves the measures as long as they are. -/
theorem lengths_play (hc : c.verb ≠ .time) (h : s.play c = .ok (events, s')) :
  s'.measureDuration = s.measureDuration ∧ s'.timeSignature = s.timeSignature
  := by
  obtain ⟨verb, noun⟩ := c
  obtain ⟨name, e, rfl, -, -, rfl⟩ | ⟨hnote, -, hcontrol⟩ := play_eq_ok h
  · exact ⟨rfl, rfl⟩
  · cases verb with
    | note name => cases hnote
    | time => cases hc rfl
    | tempo =>
      obtain ⟨bpm, -, rfl⟩ := setTempo_eq_ok hcontrol
      exact ⟨rfl, rfl⟩
    | _ =>
      cases hcontrol
      exact ⟨rfl, rfl⟩

/-- What a command plays takes its part of the measure. -/
theorem sum_duration_play (h : s.play c = .ok (events, s')) :
  (events.map Event.duration).sum = s.measureDuration * c.wholes / s.timeSignature
  := by
  obtain ⟨verb, noun⟩ := c
  obtain ⟨name, e, rfl, hplace, rfl, -⟩ | ⟨hnote, rfl, -⟩ := play_eq_ok h
  · obtain ⟨frequency, length, -, hlength, -, rfl⟩ := place_eq_ok hplace
    rw [Command.wholes]
    dsimp only
    rw [hlength]
    dsimp only
    rw [List.map_singleton, List.sum_singleton]
    ring
  · have hwholes : Command.wholes ⟨verb, noun⟩ = 0 := by
      cases verb with
      | note name => cases hnote
      | _ => rfl
    rw [hwholes, mul_zero, zero_div]
    rfl

/-- Notes are placed only where measures have a length. -/
theorem timeSignature_ne_zero {e : Event Rat} (h : s.play c = .ok (events, s')) (he : e ∈ events) :
  s.timeSignature ≠ 0
  := by
  obtain ⟨name, e, -, hplace, -, -⟩ | ⟨-, rfl, -⟩ := play_eq_ok h
  · obtain ⟨frequency, length, -, -, hzero, -⟩ := place_eq_ok hplace
    rw [← Bool.not_eq_true, Scalar.isZero, Scalar.equal_rat_iff] at hzero
    exact hzero
  · cases he

end Steps

section Runs

variable {s s' : Transport Rat} {cs : List Command}

/-- Events that are placed behind a bar follow one another up to the next one. -/
theorem endToEnd_schedule (hcs : Barless cs) (h : (s.schedule cs).outcome = .ok s') :
  EndToEnd (s.measureStart + s.offset) (s.schedule cs).events (s'.measureStart + s'.offset)
  := by
  induction cs generalizing s with
  | nil =>
    cases h
    apply EndToEnd.nil
  | cons c cs ih =>
    obtain ⟨hc, hcs⟩ := List.forall_mem_cons.mp hcs
    obtain ⟨events, t, hplay, h, hevents⟩ := schedule_cons_eq_ok h
    rw [hevents]
    exact (endToEnd_play hc hplay).append (ih hcs h)

theorem lengths_schedule (hcs : Steady cs) (h : (s.schedule cs).outcome = .ok s') :
  s'.measureDuration = s.measureDuration ∧ s'.timeSignature = s.timeSignature
  := by
  induction cs generalizing s with
  | nil =>
    cases h
    exact ⟨rfl, rfl⟩
  | cons c cs ih =>
    obtain ⟨⟨-, hc⟩, hcs⟩ := List.forall_mem_cons.mp hcs
    obtain ⟨events, t, hplay, h, -⟩ := schedule_cons_eq_ok h
    obtain ⟨hmeasure, htime⟩ := lengths_play hc hplay
    rw [← hmeasure, ← htime]
    exact ih hcs h

/-- The durations of notes add up to the part of a measure that their lengths add up to. -/
theorem sum_duration_schedule (hcs : Steady cs) (h : (s.schedule cs).outcome = .ok s') :
  ((s.schedule cs).events.map Event.duration).sum =
    s.measureDuration * (cs.map Command.wholes).sum / s.timeSignature
  := by
  induction cs generalizing s with
  | nil =>
    rw [List.map_nil, List.sum_nil, mul_zero, zero_div]
    rfl
  | cons c cs ih =>
    obtain ⟨⟨-, hc⟩, hcs⟩ := List.forall_mem_cons.mp hcs
    obtain ⟨events, t, hplay, h, hevents⟩ := schedule_cons_eq_ok h
    obtain ⟨hmeasure, htime⟩ := lengths_play hc hplay
    rw [hevents, List.map_append, List.sum_append, ih hcs h, hmeasure, htime,
      sum_duration_play hplay, List.map_cons, List.sum_cons]
    ring

theorem timeSignature_ne_zero_of_mem_schedule {e : Event Rat} (hcs : Steady cs)
    (h : (s.schedule cs).outcome = .ok s') (he : e ∈ (s.schedule cs).events) :
  s.timeSignature ≠ 0
  := by
  induction cs generalizing s with
  | nil => cases he
  | cons c cs ih =>
    obtain ⟨⟨-, hc⟩, hcs⟩ := List.forall_mem_cons.mp hcs
    obtain ⟨events, t, hplay, h, hevents⟩ := schedule_cons_eq_ok h
    rw [hevents, List.mem_append] at he
    obtain he | he := he
    · exact timeSignature_ne_zero hplay he
    · rw [← (lengths_play hc hplay).2]
      exact ih hcs h he

/-- Notes whose lengths add up to the time signature take the measure, if there are any. -/
theorem sum_duration_of_sum_wholes {e : Event Rat} (hcs : Steady cs)
    (h : (s.schedule cs).outcome = .ok s') (he : e ∈ (s.schedule cs).events)
    (hsum : (cs.map Command.wholes).sum = s.timeSignature) :
  ((s.schedule cs).events.map Event.duration).sum = s.measureDuration
  := by
  rw [sum_duration_schedule hcs h, hsum]
  -- The time signature is not zero, for a note has been placed.
  exact mul_div_cancel_right₀ _ (timeSignature_ne_zero_of_mem_schedule hcs h he)

end Runs

end Transport

section Samples

/-- A start and a length that are rounded down each on its own reach no further than their sum does
when it is rounded down, and at most one less far, unless the length runs on from before zero. -/
theorem floor_adjoin {a b : Rat} (h : 0 ≤ a ∨ b ≤ 0) :
  (⌊b⌋₊ = 0 ∨ ⌊a⌋₊ + ⌊b⌋₊ ≤ ⌊a + b⌋₊) ∧ ⌊a + b⌋₊ ≤ ⌊a⌋₊ + ⌊b⌋₊ + 1
  := by
  -- A length that is not positive has no samples that could overlap others.
  obtain hb | hb := le_or_gt b 0
  · have hzero : ⌊b⌋₊ = 0 := Nat.floor_of_nonpos hb
    have hle : ⌊a + b⌋₊ ≤ ⌊a⌋₊ := Nat.floor_mono (by linarith)
    exact ⟨.inl hzero, by omega⟩
  · have ha : 0 ≤ a := h.resolve_right hb.not_ge
    constructor
    · apply Or.inr
      apply Nat.le_floor
      rw [Nat.cast_add]
      exact add_le_add (Nat.floor_le ha) (Nat.floor_le hb.le)
    · apply Nat.le_of_lt_succ
      rw [Nat.floor_lt (add_nonneg ha hb.le)]
      have hfirst := Nat.lt_floor_add_one a
      have hsecond := Nat.lt_floor_add_one b
      push_cast
      linarith

variable {e e' : Event Rat} {playback : Playback}

theorem sampleCount_rat [Memory] {rate : Int} {seconds : Rat} {count : Nat}
    (h : sampleCount rate seconds = .ok count) :
  count = ⌊rate * seconds⌋₊
  := by
  obtain ⟨_, hrate, h⟩ := bind_eq_ok h
  cases hrate
  obtain ⟨n, hn, h⟩ := bind_eq_ok h
  obtain ⟨m, hm, hfloor⟩ := Scalar.truncate_rat (rate * seconds)
  obtain rfl : n = m := Except.ok.inj (hn.symm.trans hm)
  rw [← hfloor, Capacity.eq_of_ofSound h]

theorem Event.firstSample_rat {rate : Int} {first : Nat} (h : e.firstSample rate = .ok first) :
  first = ⌊e.start * rate⌋₊
  := by
  obtain ⟨_, hrate, h⟩ := bind_eq_ok h
  cases hrate
  obtain ⟨n, hn, h⟩ := bind_eq_ok h
  cases h
  obtain ⟨m, hm, hfloor⟩ := Scalar.truncate_rat (e.start * rate)
  obtain rfl : n = m := Except.ok.inj (hn.symm.trans hm)
  exact hfloor

theorem Event.span_rat [Memory] {first count : Nat} (h : e.span playback = .ok (first, count)) :
  first = ⌊e.start * playback.rate⌋₊ ∧ count = ⌊playback.rate * e.duration⌋₊
  := by
  obtain ⟨_, hcount, h⟩ := bind_eq_ok h
  obtain ⟨_, hfirst, h⟩ := bind_eq_ok h
  obtain ⟨_, -, h⟩ := bind_eq_ok h
  cases h
  exact ⟨firstSample_rat hfirst, sampleCount_rat hcount⟩

/-- The samples of two events do not overlap and leave at most one sample between them. -/
def Event.Adjoin [Memory] (playback : Playback) (e e' : Event Rat) : Prop :=
  ∃ first count next count' : Nat, e.span playback = .ok (first, count) ∧
    e'.span playback = .ok (next, count') ∧ (count = 0 ∨ first + count ≤ next) ∧
      next ≤ first + count + 1

theorem Event.adjoin_of_start_eq [Memory] (hnext : e'.start = e.start + e.duration)
    (hsounds : e.Sounds playback) (hsounds' : e'.Sounds playback) (hstart : 0 ≤ e.start)
    (hforward : 0 ≤ playback.rate ∨ 0 ≤ e.duration) :
  e.Adjoin playback e'
  := by
  obtain ⟨⟨first, count⟩, hspan⟩ := hsounds
  obtain ⟨⟨next, count'⟩, hspan'⟩ := hsounds'
  refine ⟨first, count, next, count', hspan, hspan', ?_⟩
  obtain ⟨rfl, rfl⟩ := Event.span_rat hspan
  obtain ⟨rfl, -⟩ := Event.span_rat hspan'
  rw [hnext, add_mul, mul_comm e.duration]
  apply floor_adjoin
  -- At a negative rate an event that does not go backwards has no samples.
  obtain hrate | hrate := le_or_gt 0 playback.rate
  · exact .inl (mul_nonneg hstart (Int.cast_nonneg hrate))
  · have hduration := hforward.resolve_left hrate.not_ge
    exact .inr (mul_nonpos_of_nonpos_of_nonneg (Int.cast_nonpos.mpr hrate.le) hduration)

end Samples

namespace Performance

/-- The events of the commands `vs` tile the measure of the bar in front of them, which is the last
of the commands `before` and leads to the transport `s`. -/
structure TilesMeasure [Memory] (playback : Playback) (before vs : List Command) (s : Transport Rat)
    (events : List (Event Rat)) : Prop where
  /-- The events are those of the notes. -/
  length : events.length = vs.countP fun c => c.verb.isNote
  /-- An event starts as far behind the start of the measure as the durations of those before it add
  up to. -/
  start : ∀ k e, events[k]? = some e →
    e.start = s.measureStart + ((events.take k).map Event.duration).sum
  /-- Where the lengths of the notes add up to the time signature, the last one ends with the
  measure. -/
  stop : Steady vs → (vs.map Command.wholes).sum = s.timeSignature → ∀ e, events.getLast? = some e →
    e.start + e.duration = s.measureDuration * (s.measureIndex + 1)
  /-- There the measure with the next index starts at a later bar. -/
  next : ∀ (ws : List Command) (bar : Command) (q : Performance Rat), Steady vs → Steady ws →
    bar.verb = .measure → run playback (before ++ vs ++ ws ++ [bar]) = .ok q →
    q.transport.measureIndex = s.measureIndex + 1 →
    q.transport.measureStart = s.measureDuration * (s.measureIndex + 1)
  /-- The samples of an event that does not start before the track adjoin those of the next one.  At
  a negative rate only those of an event that goes backwards would reach over the next one. -/
  samples : ∀ k e e', events[k]? = some e → events[k + 1]? = some e' → 0 ≤ e.start →
    0 ≤ playback.rate ∨ 0 ≤ e.duration → e.Adjoin playback e'

section Bars

variable {playback : Playback} {cs ds : List Command} {bar : Command} {p q : Performance Rat}

/-- Behind steady commands a bar that comes to the next measure starts it where the one before
ends. -/
theorem measureStart_of_next_bar [Memory] (hsteady : Steady ds) (hbar : bar.verb = .measure)
    (hq : run playback cs = .ok q) (h : run playback (cs ++ ds ++ [bar]) = .ok p)
    (hindex : p.transport.measureIndex = q.transport.measureIndex + 1) :
  p.transport.measureStart = q.transport.measureDuration * (q.transport.measureIndex + 1)
  := by
  obtain ⟨r, hr⟩ := exists_run_of_append h
  obtain ⟨hmeasure, -⟩ := Transport.lengths_schedule hsteady (schedule_of_run_append hq hr).1
  have hp := transport_of_bar hbar hr h
  have hstart : p.transport.measureStart = r.transport.measureDuration *
      p.transport.measureIndex := by
    rw [hp]
    rfl
  rw [hstart, hmeasure, hindex, Int.cast_add, Int.cast_one]

/-- No event of a text that is read goes backwards. -/
theorem duration_nonneg_of_run [Memory] {t : Text} (ht : Score.read t = .ok cs)
    (h : run playback cs = .ok p) :
  ∀ e ∈ p.events, 0 ≤ e.duration
  := by
  obtain ⟨hschedule, -⟩ := schedule_of_run h
  have hP := NoteLength.signless_nonneg
  obtain ⟨-, hnonneg⟩ := (Transport.each_initial hP).schedule hP (Score.dashless_of_read ht)
    (congrArg Schedule.outcome hschedule)
  rwa [hschedule] at hnonneg

end Bars

/-- The notes behind a bar tile its measure, whatever stands before the bar and behind the measure.
Those of a text that is read do not go backwards. -/
theorem tilesMeasure_of_run [Memory] (playback : Playback) {us vs ds : List Command} {bar : Command}
    (hbar : bar.verb = .measure) (hvs : Barless vs) {p : Performance Rat}
    (h : run playback (us ++ [bar] ++ vs ++ ds) = .ok p) :
  ∃ (r : Performance Rat) (events later : List (Event Rat)), run playback (us ++ [bar]) = .ok r ∧
    p.events = r.events ++ events ++ later ∧
    r.transport.measureStart = r.transport.measureDuration * r.transport.measureIndex ∧
    TilesMeasure playback (us ++ [bar]) vs r.transport events ∧
    ((∃ t, Score.read t = .ok (us ++ [bar] ++ vs ++ ds)) → ∀ e ∈ events,
      0 ≤ e.duration ∧ (0 ≤ r.transport.measureStart → 0 ≤ e.start))
  := by
  obtain ⟨q, hq⟩ := exists_run_of_append h
  obtain ⟨r, hr⟩ := exists_run_of_append hq
  obtain ⟨o, ho⟩ := exists_run_of_append hr
  have hbehind := transport_of_bar hbar ho hr
  have hoffset : r.transport.offset = 0 := by
    rw [hbehind]
    rfl
  obtain ⟨houtcome, hevents⟩ := schedule_of_run_append hr hq
  obtain ⟨-, hlater⟩ := schedule_of_run_append hq h
  obtain ⟨-, hsounds⟩ := schedule_of_run hq
  have hendToEnd := Transport.endToEnd_schedule hvs houtcome
  rw [hoffset, add_zero] at hendToEnd
  rw [hevents] at hlater hsounds
  have hsounds := (List.forall_mem_append.mp hsounds).2
  have hstart : r.transport.measureStart = r.transport.measureDuration *
      r.transport.measureIndex := by
    rw [hbehind]
    rfl
  refine ⟨r, _, _, hr, hlater, hstart, ?_, ?_⟩
  · exact {
      length := Transport.length_events_schedule houtcome
      start := fun k e => hendToEnd.start_eq
      stop := by
        intro hsteady hsum e hlast
        rw [hendToEnd.stop_getLast? hlast, hendToEnd.stop_eq, hstart,
          Transport.sum_duration_of_sum_wholes hsteady houtcome (List.mem_of_getLast? hlast) hsum]
        ring
      next := by
        intro ws bar' p' hsteady hws hbar' hp' hindex
        rw [List.append_assoc (us ++ [bar])] at hp'
        exact measureStart_of_next_bar (List.forall_mem_append.mpr ⟨hsteady, hws⟩) hbar' hr
          hp' hindex
      samples := by
        intro k e e' hk hnext
        have he := hsounds e (List.mem_of_getElem? hk)
        have he' := hsounds e' (List.mem_of_getElem? hnext)
        exact Event.adjoin_of_start_eq (hendToEnd.start_next hk hnext) he he' }
  · rintro ⟨t, ht⟩
    have hduration := duration_nonneg_of_run ht h
    rw [hlater, List.forall_mem_append] at hduration
    have hforward := (List.forall_mem_append.mp hduration.1).2
    intro e he
    exact ⟨hforward e he, fun hnonneg => hnonneg.trans (hendToEnd.le_start hforward e he)⟩

attribute [local instance] Memory.sixteenGigabytes in
/-- A dotted quarter note, an eighth note and a quarter note fill the second measure, of which none
takes a whole number of samples. -/
theorem tilesMeasure_of_run_dottedQuarter :
  let note (noun : String) : Command := ⟨.note "Cn_4".toList, noun.toList⟩
  let us : List Command := [⟨.tempo, "70".toList⟩, ⟨.time, "3/4".toList⟩, ⟨.measure, ['|']⟩]
  let bar : Command := ⟨.measure, ['|']⟩
  let vs := [note "1/4+", note "1/8", note "1/4"]
  let ds := [bar, note "1/2"]
  ∃ (p r : Performance Rat) (events later : List (Event Rat)),
    Score.read "[ 70_bpm ][ 3/4 ] | | (Cn_4 1/4+)(Cn_4 1/8)(Cn_4 1/4) | (Cn_4 1/2)".toList =
      .ok (us ++ [bar] ++ vs ++ ds) ∧
    bar.verb = .measure ∧ Barless vs ∧ run {} (us ++ [bar] ++ vs ++ ds) = .ok p ∧
    run {} (us ++ [bar]) = .ok r ∧ p.events = r.events ++ events ++ later ∧
    TilesMeasure {} (us ++ [bar]) vs r.transport events ∧
    (∃ e, events.getLast? = some e ∧ e.start + e.duration = 36 / 7) ∧
    ∀ k e e', events[k]? = some e → events[k + 1]? = some e' → e.Adjoin {} e'
  := by
  intro note us bar vs ds
  have hread : Score.read
      "[ 70_bpm ][ 3/4 ] | | (Cn_4 1/4+)(Cn_4 1/8)(Cn_4 1/4) | (Cn_4 1/2)".toList =
      .ok (us ++ [bar] ++ vs ++ ds) := by
    decide +kernel
  obtain ⟨p, hp⟩ : ∃ p : Performance Rat, run {} (us ++ [bar] ++ vs ++ ds) = .ok p := by
    apply exists_run
    · decide +kernel
    · decide +kernel
  have hvs : Barless vs := by
    unfold Barless
    decide
  have hsteady : Steady vs := by
    unfold Steady
    decide
  obtain ⟨r, events, later, hr, hevents, hstart, htiles, hforward⟩ :=
    tilesMeasure_of_run {} rfl hvs hp
  have hlengths : (Transport.initial.schedule (us ++ [bar])).outcome.toOption.map
      (fun s : Transport Rat => (s.timeSignature, s.measureDuration, s.measureIndex)) =
        some ((vs.map Command.wholes).sum, 18 / 7, 1) := by
    decide +kernel
  rw [(schedule_of_run hr).1] at hlengths
  have htuple := Option.some.inj hlengths
  rw [Prod.mk.injEq, Prod.mk.injEq] at htuple
  obtain ⟨htime, hmeasure, hindex⟩ := htuple
  have hlength : events.length = 3 := htiles.length
  have hlast := List.getLast?_eq_some_getLast (List.ne_nil_of_length_eq_add_one hlength)
  have hstop := htiles.stop hsteady htime.symm _ hlast
  rw [hmeasure, hindex] at hstop hstart
  refine ⟨p, r, events, later, hread, rfl, hvs, hp, hr, hevents, htiles, ⟨_, hlast, ?_⟩, ?_⟩
  · rw [hstop]
    norm_num
  · intro k f f' hk hnext
    have hnonneg : 0 ≤ f.start := by
      apply (hforward ⟨_, hread⟩ f (List.mem_of_getElem? hk)).2
      rw [hstart]
      norm_num
    exact htiles.samples k f f' hk hnext hnonneg (.inl (by decide))

end Performance

end Tunescript
