import Tunescript.Proofs.Performance.Reach
import Tunescript.Proofs.Performance.Schedule

/-!
# The measures of events

An event starts in the measure of the last bar before it, as far behind its start as the notes in
between fill it (`place_schedule`).  The measure it is said to belong to is the one that the
transport counts, which checkpoints and resets move as well (`Measures.index_after_of_barless`).  So
the two are the same exactly if neither of them stands between the bar and the note, or if a
checkpoint does and the bar has reached the furthest measure (`measureIndex_of_event_iff`).
-/

namespace Tunescript

/-- None of the commands is a bar. -/
def Barless (cs : List Command) : Prop := ∀ c ∈ cs, c.verb ≠ .measure

/-- Behind commands without bars a checkpoint among them has led to the furthest measure, or else a
reset to the one in front of the section. -/
theorem Measures.index_after_of_barless {m : Measures} {cs : List Command} (hcs : Barless cs) :
  (m.after cs).index =
    if ∃ c ∈ cs, c.verb = .checkpoint then m.greatest
    else if ∃ c ∈ cs, c.verb = .reset then m.checkpoint - 1
    else m.index
  := by
  induction cs generalizing m with
  | nil => simp
  | cons c cs ih =>
    obtain ⟨hc, hcs⟩ := List.forall_mem_cons.mp hcs
    rw [after_cons, ih hcs]
    obtain ⟨verb, noun⟩ := c
    cases verb with
    | measure => cases hc rfl
    | checkpoint => simp [next]
    | reset => simp [next]
    | _ => simp [next]

variable {α : Type} [Scalar α]

/-- Commands without bars leave the start of the measure where it is and fill the measure with the
events that they place. -/
theorem Transport.place_schedule {s s' : Transport α} {cs : List Command} (hcs : Barless cs)
    (h : (s.schedule cs).outcome = .ok s') :
  s'.measureStart = s.measureStart ∧
    s'.offset = ((s.schedule cs).events.map Event.duration).foldl (· + ·) s.offset
  := by
  induction cs generalizing s with
  | nil =>
    cases h
    exact ⟨rfl, rfl⟩
  | cons c cs ih =>
    obtain ⟨hc, hcs⟩ := List.forall_mem_cons.mp hcs
    obtain ⟨events, t, hplay, h, hevents⟩ := schedule_cons_eq_ok h
    obtain ⟨hstart, hoffset⟩ := ih hcs h
    rw [hstart, hoffset, measureStart_play hplay, offset_play hplay, if_neg hc, if_neg hc, hevents,
      List.map_append, List.foldl_append]
    exact ⟨rfl, rfl⟩

/-- A bar goes on to the next measure, which starts where its index says and is empty. -/
theorem Transport.play_bar {s s' : Transport α} {c : Command} {events : List (Event α)}
    (hc : c.verb = .measure) (h : s.play c = .ok (events, s')) :
  s' = s.startMeasure
  := by
  obtain ⟨verb, noun⟩ := c
  subst hc
  cases h
  rfl

/-- Commands without bars stay in a measure exactly if none of them is a checkpoint or a reset, or
if one is a checkpoint and the measure is the furthest one. -/
theorem Measures.index_after_eq_iff {m : Measures} {cs : List Command}
    (hindex : m.checkpoint ≤ m.index) (hcs : Barless cs) :
  (m.after cs).index = m.index ↔
    (∀ c ∈ cs, c.verb ≠ .checkpoint ∧ c.verb ≠ .reset) ∨
      (∃ c ∈ cs, c.verb = .checkpoint) ∧ m.index = m.greatest
  := by
  rw [index_after_of_barless hcs]
  by_cases hcheckpoint : ∃ c ∈ cs, c.verb = .checkpoint
  · have hsome : ¬∀ c ∈ cs, c.verb ≠ .checkpoint ∧ c.verb ≠ .reset := by
      obtain ⟨c, hc, hverb⟩ := hcheckpoint
      intro hnone
      exact (hnone c hc).1 hverb
    rw [if_pos hcheckpoint]
    simp only [hsome, hcheckpoint, true_and, false_or]
    exact eq_comm
  · rw [if_neg hcheckpoint]
    simp only [hcheckpoint, false_and, or_false]
    by_cases hreset : ∃ c ∈ cs, c.verb = .reset
    · obtain ⟨c, hc, hverb⟩ := hreset
      rw [if_pos ⟨c, hc, hverb⟩]
      constructor
      · intro heq
        omega
      · intro hnone
        cases (hnone c hc).2 hverb
    · rw [if_neg hreset]
      have hnone : ∀ c ∈ cs, c.verb ≠ .checkpoint ∧ c.verb ≠ .reset := by
        intro c hc
        exact ⟨fun hverb => hcheckpoint ⟨c, hc, hverb⟩, fun hverb => hreset ⟨c, hc, hverb⟩⟩
      exact ⟨fun _ => hnone, fun _ => rfl⟩

namespace Performance

/-- A bar leads to the start of the next measure. -/
theorem transport_of_bar [Memory] {playback : Playback} {cs : List Command} {bar : Command}
    {p q : Performance α} (hbar : bar.verb = .measure) (hq : run playback cs = .ok q)
    (h : run playback (cs ++ [bar]) = .ok p) :
  p.transport = q.transport.startMeasure
  := by
  obtain ⟨houtcome, -⟩ := schedule_of_run_append hq h
  obtain ⟨events, t, hplay, ht, -⟩ := Transport.schedule_cons_eq_ok houtcome
  cases ht
  exact Transport.play_bar hbar hplay

/-- A note behind a bar is placed in the measure of that bar, behind the notes in between.  Its
event is said to belong to that measure exactly if neither a checkpoint nor a reset stands in
between, or if a checkpoint does and the bar has reached the furthest measure. -/
theorem measureIndex_of_event_iff [Memory] (playback : Playback) {us vs ds : List Command}
    {bar : Command} {name noun : Text} (hbar : bar.verb = .measure) (hvs : Barless vs)
    {p : Performance α} (h : run playback (us ++ [bar] ++ vs ++ ⟨.note name, noun⟩ :: ds) = .ok p) :
  ∃ (r : Performance α) (e : Event α), run playback (us ++ [bar]) = .ok r ∧
    p.events[(us ++ [bar] ++ vs).countP fun c => c.verb.isNote]? = some e ∧
    r.transport.measureStart = r.transport.measureDuration * Scalar.ofInt r.transport.measureIndex ∧
    e.start = r.transport.measureStart +
      Scalar.sum ((r.transport.schedule vs).events.map Event.duration) ∧
    e.measureIndex =
      (if ∃ c ∈ vs, c.verb = .checkpoint then r.transport.greatestIndex
      else if ∃ c ∈ vs, c.verb = .reset then r.transport.checkpointIndex - 1
      else r.transport.measureIndex) ∧
    (e.measureIndex = r.transport.measureIndex ↔
      (∀ c ∈ vs, c.verb ≠ .checkpoint ∧ c.verb ≠ .reset) ∨
        (∃ c ∈ vs, c.verb = .checkpoint) ∧ r.transport.measureIndex = r.transport.greatestIndex)
  := by
  obtain ⟨q, hq⟩ := exists_run_of_append h
  obtain ⟨r, hr⟩ := exists_run_of_append hq
  obtain ⟨s, e, hs, hplace, he⟩ := event_of_run h
  refine ⟨r, e, hr, he, ?_⟩
  have hbehind : (Transport.initial.schedule (us ++ [bar])).outcome = .ok r.transport :=
    congrArg Schedule.outcome (schedule_of_run hr).1
  -- the bar is the last command of the first part
  obtain ⟨t, ht, hlast, -⟩ := Transport.schedule_append_eq_ok hbehind
  obtain ⟨events, u, hplay, hu, -⟩ := Transport.schedule_cons_eq_ok hlast
  obtain rfl : u = r.transport := Except.ok.inj hu
  have hr' := Transport.play_bar hbar hplay
  -- the commands behind it are played from its measure on
  rw [Transport.schedule_append hbehind] at hs
  obtain ⟨hstart, hoffset⟩ := Transport.place_schedule hvs hs
  obtain ⟨frequency, length, -, -, -, rfl⟩ := Transport.place_eq_ok hplace
  have horder : t.measures.InOrder := by
    rw [Transport.measures_schedule ht]
    apply Measures.inOrder_initial.after
  have hsection : r.transport.measures.checkpoint ≤ r.transport.measures.index := by
    have hlow : t.checkpointIndex - 1 ≤ t.measureIndex := horder.checkpoint_le_index
    have hnext : t.checkpointIndex ≤ t.measureIndex + 1 := by omega
    rw [hr']
    exact hnext
  have hindex : s.measureIndex = (r.transport.measures.after vs).index :=
    congrArg Measures.index (Transport.measures_schedule hs)
  refine ⟨?_, ?_, ?_, ?_⟩
  · rw [hr']
    rfl
  · dsimp only
    rw [hstart, hoffset, hr']
    rfl
  · dsimp only
    rw [hindex, Measures.index_after_of_barless hvs]
    rfl
  · dsimp only
    rw [hindex]
    apply Measures.index_after_eq_iff hsection hvs

attribute [local instance] Memory.sixteenGigabytes in
/-- A note that stands behind a checkpoint in the furthest measure still belongs to that measure. -/
theorem measureIndex_of_event_iff_checkpoint :
  let t := "| (Cn_4 1/4) | * (En_4 1/4)".toList
  let us : List Command := [⟨.measure, ['|']⟩, ⟨.note "Cn_4".toList, "1/4".toList⟩]
  let bar : Command := ⟨.measure, ['|']⟩
  let vs : List Command := [⟨.checkpoint, ['*']⟩]
  let note : Command := ⟨.note "En_4".toList, "1/4".toList⟩
  ∃ (p r : Performance Float) (e : Event Float), Score.read t = .ok (us ++ [bar] ++ vs ++ [note]) ∧
    run {} (us ++ [bar] ++ vs ++ [note]) = .ok p ∧ bar.verb = .measure ∧ Barless vs ∧
    run {} (us ++ [bar]) = .ok r ∧ p.events[1]? = some e ∧ e.measureIndex = r.transport.measureIndex
  := by
  intro t us bar vs note
  have hread : Score.read t = .ok (us ++ [bar] ++ vs ++ [note]) := by
    decide +kernel
  obtain ⟨p, hp⟩ : ∃ p : Performance Float, run {} (us ++ [bar] ++ vs ++ [note]) = .ok p := by
    apply exists_run
    · decide +kernel
    · decide +kernel
  have hvs : Barless vs := by
    intro c hc
    obtain rfl := List.mem_singleton.mp hc
    decide
  obtain ⟨r, e, hr, he, -, -, -, hiff⟩ := measureIndex_of_event_iff {} rfl hvs hp
  have hfurthest : r.transport.measures = Measures.initial.after (us ++ [bar]) := measures_run hr
  refine ⟨p, r, e, hread, hp, rfl, hvs, hr, he, hiff.mpr (.inr ⟨by simp [vs], ?_⟩)⟩
  have hindex : r.transport.measureIndex = 1 := congrArg Measures.index hfurthest
  have hgreatest : r.transport.greatestIndex = 1 := congrArg Measures.greatest hfurthest
  rw [hindex, hgreatest]

attribute [local instance] Memory.sixteenGigabytes in
/-- A note that stands behind a reset starts in the first measure, and is said to belong to one in
front of all measures. -/
theorem not_measureIndex_of_event_iff_reset :
  let t := "| ;\n(Cn_4 1/4)".toList
  let us : List Command := [⟨.measure, ['|']⟩]
  let vs : List Command := [⟨.reset, []⟩, ⟨.note "Cn_4".toList, "1/4".toList⟩]
  ∃ (p r : Performance Float) (e : Event Float), Score.read t = .ok (us ++ vs) ∧
    run {} (us ++ vs) = .ok p ∧ run {} us = .ok r ∧ p.events = [e] ∧
    r.transport.measureIndex = 0 ∧ e.start = r.transport.measureDuration * Scalar.ofInt 0 ∧
    e.measureIndex = -2 ∧ e.measureIndex ≠ r.transport.measureIndex
  := by
  intro t us vs
  have hread : Score.read t = .ok (us ++ vs) := by
    decide +kernel
  obtain ⟨p, hp⟩ : ∃ p : Performance Float, run {} (us ++ vs) = .ok p := by
    apply exists_run
    · decide +kernel
    · decide +kernel
  obtain ⟨r, hr⟩ := exists_run_of_append hp
  let events : List (Event Float) := (Transport.initial.schedule (us ++ vs)).events
  have hevents : events = p.events := congrArg Schedule.events (schedule_of_run hp).1
  have hplaces : events.map (fun e => (e.start, e.measureIndex)) = [(0.0, -2)] := by
    decide +kernel
  have hschedule : Transport.initial.schedule us = ⟨r.events, .ok r.transport⟩ :=
    (schedule_of_run hr).1
  have hdown : r.transport = Transport.initial.startMeasure := by
    obtain ⟨-, houtcome⟩ := Schedule.mk.inj hschedule
    exact (Except.ok.inj houtcome).symm
  obtain ⟨e, he⟩ := List.length_eq_one_iff.mp (length_events_of_run hp)
  rw [hevents, he, List.map_singleton, List.singleton_inj, Prod.mk.injEq] at hplaces
  obtain ⟨hstart, hindex⟩ := hplaces
  refine ⟨p, r, e, hread, hp, hr, he, ?_, ?_, hindex, ?_⟩
  · rw [hdown]
    rfl
  · rw [hstart, hdown]
    decide +kernel
  · rw [hindex, hdown]
    decide

end Performance

end Tunescript
