import Tunescript.Midi.Sequence
import Tunescript.Proofs.Number.Truncation
import Tunescript.Proofs.Performance.Starts

/-!
# When exported notes start

A note is heard from the place of its event, or from the start of the track if its place lies in
front of that.  An export writes the place as it is, so that the two agree exactly if the time that
is written is not below zero (`noteTimes_of_run`).  Where no quantity has a dash, they can differ
only behind a reset that has no checkpoint in front of it.
-/

namespace Tunescript

open Binary64 (Coincide IsNumber)

/-- The seconds from the start of the track at which an event is heard. -/
def Event.heardFrom (e : Event Float) : Float := Binary64.positivePart e.start

section Sounds

variable {playback : Playback} {e : Event Float}

variable [Memory]

/-- The first sample of an event that sounds is that of a number. -/
theorem Event.Sounds.exists_first (h : e.Sounds playback) :
  ∃ n, Scalar.ofBoundedInt playback.rate = .ok (Float.ofInt playback.rate) ∧
    Binary64.truncate (e.start * Float.ofInt playback.rate) = .ok n ∧
    e.firstSample playback.rate = .ok n.toNat
  := by
  obtain ⟨r, hr⟩ := h
  obtain ⟨count, -, hr⟩ := Score.bind_eq_ok hr
  obtain ⟨first, hfirst, -⟩ := Score.bind_eq_ok hr
  have hsample := hfirst
  obtain ⟨rate, hrate, hfirst⟩ := Score.bind_eq_ok hfirst
  obtain ⟨n, hn, hfirst⟩ := Score.bind_eq_ok hfirst
  have hbounded : rate = Float.ofInt playback.rate := by
    change (if Binary64.integerBound ≤ playback.rate.natAbs then _ else _) = _ at hrate
    split at hrate
    · cases hrate
    · cases hrate
      rfl
  cases hfirst
  rw [hbounded] at hrate hn
  exact ⟨n, hrate, hn, hsample⟩

/-- The place of an event that sounds is a number. -/
theorem Event.Sounds.isNumber_start (h : e.Sounds playback) :
  IsNumber e.start
  := by
  obtain ⟨n, -, hn, -⟩ := h.exists_first
  apply Binary64.IsNumber.of_mul (Binary64.exists_truncate_iff.mp ⟨n, hn⟩)

/-- An event is mixed in at the sample from which it is heard. -/
theorem Event.Sounds.firstSample_heardFrom (h : e.Sounds playback) (hrate : 0 ≤ playback.rate) :
  Event.firstSample { e with start := e.heardFrom } playback.rate = e.firstSample playback.rate
  := by
  obtain ⟨n, hbounded, hn, hfirst⟩ := h.exists_first
  obtain ⟨k, hk, hsame⟩ := Binary64.truncate_mul_positivePart (Binary64.unsigned_ofInt hrate) hn
  rw [hfirst, Event.firstSample, hbounded, ← hsame]
  change (Binary64.truncate (Binary64.positivePart e.start * Float.ofInt playback.rate)).map
    Int.toNat = _
  rw [hk]
  rfl

end Sounds

namespace Midi

/-- The time of a call that writes a note. -/
def Call.time? : Call → Option Float
  | .note _ _ _ start _ _ => some start
  | _ => none

section Calls

variable {x : Exporter} {events : List (Event Float)} {c : Call}

/-- The calls that are made are among those that are planned. -/
theorem mem_of_mem_build {s : Sequence} {cs : List (Except ArithmeticFault Call)}
    (h : c ∈ (build s cs).calls) :
  .ok c ∈ cs
  := by
  induction cs generalizing s with
  | nil => cases h
  | cons d cs ih =>
    cases d with
    | error f => cases h
    | ok d =>
      rw [build] at h
      split at h
      · obtain rfl := List.mem_singleton.mp h
        apply List.mem_cons_self
      · obtain rfl | h := List.mem_cons.mp h
        · apply List.mem_cons_self
        · apply List.mem_cons_of_mem _ (ih h)

theorem mem_plan_of_exportTo {fs : Files} {path : Text}
    (h : c ∈ (exportTo x events fs path).calls) :
  .ok c ∈ plan x events
  := by
  apply mem_of_mem_build (s := [])
  rw [exportTo] at h
  dsimp only at h
  split at h
  · exact h
  · exact h

/-- A planned call that writes a note is that of a written event, at the place of the event in
beats. -/
theorem exists_event_of_mem_plan {time : Float} (h : .ok c ∈ plan x events)
    (htime : c.time? = some time) :
  ∃ e ∈ events, isWritten e ∧ noteCall x (voices events) e = .ok c ∧ time = x.beats e.start
  := by
  rw [plan, List.mem_append, List.mem_append] at h
  obtain (hhead | hvoice) | hnote := h
  · obtain hhead | hhead := List.mem_cons.mp hhead
    · cases hhead
      cases htime
    · cases List.mem_singleton.mp hhead
      cases htime
  · obtain ⟨d, hd, hc⟩ := List.mem_map.mp hvoice
    cases hc
    obtain ⟨⟨voice, i⟩, -, hd⟩ := List.mem_flatMap.mp hd
    obtain rfl | hd := List.mem_cons.mp hd
    · cases htime
    · obtain rfl := List.mem_singleton.mp hd
      cases htime
  · obtain ⟨e, he, hc⟩ := List.mem_map.mp hnote
    obtain ⟨he, hwritten⟩ := List.mem_filter.mp he
    refine ⟨e, he, hwritten, hc, ?_⟩
    obtain ⟨pitch, -, hc⟩ := Score.bind_eq_ok hc
    cases hc
    cases htime
    rfl

end Calls

/-- The notes of an export are written at the places of their events.  The time of such a place is
that from which the note is heard, where it is mixed in, exactly if it is not below zero; and it is
so in front of a note among commands without dashes in their quantities unless they are rewound. -/
theorem noteTimes_of_run [Memory] (playback : Playback) {cs : List Command} {p : Performance Float}
    (h : Performance.run playback cs = .ok p) (x : Exporter) (hx : 0.0 < x.tempo) :
  (∀ fs path, ∀ c ∈ (exportTo x p.events fs path).calls, ∀ time, c.time? = some time →
    ∃ e ∈ p.events, isWritten e ∧ noteCall x (voices p.events) e = .ok c ∧ time = x.beats e.start) ∧
  (∀ e ∈ p.events, 0 ≤ playback.rate →
    Event.firstSample { e with start := e.heardFrom } playback.rate = e.firstSample playback.rate) ∧
  (∀ e ∈ p.events, Coincide (x.beats e.start) (x.beats e.heardFrom) ↔ ¬x.beats e.start < 0.0) ∧
  ∀ us name noun vs, cs = us ++ ⟨.note name, noun⟩ :: vs → (∀ c ∈ us, c.Dashless) → ¬Rewound us →
    ∃ e, p.events[us.countP fun c => c.verb.isNote]? = some e ∧ ¬x.beats e.start < 0.0 ∧
      Coincide (x.beats e.start) (x.beats e.heardFrom)
  := by
  have hsounds := (Performance.schedule_of_run h).2
  have hbeat : Binary64.Unsigned (x.tempo / 60.0) := by
    apply (Binary64.zero_lt_iff.mp hx).2.1.div
    rw [Binary64.Unsigned]
    rfl
  have hcoincide : ∀ e ∈ p.events,
      Coincide (x.beats e.start) (x.beats e.heardFrom) ↔ ¬x.beats e.start < 0.0 := by
    intro e he
    apply Binary64.coincide_mul_positivePart_iff hbeat (hsounds e he).isNumber_start
  refine ⟨?_, fun e he => (hsounds e he).firstSample_heardFrom, hcoincide, ?_⟩
  · intro fs path c hc time htime
    apply exists_event_of_mem_plan (mem_plan_of_exportTo hc) htime
  · rintro us name noun vs rfl hus hrewound
    obtain ⟨e, he, hstart⟩ := Performance.unsigned_start_of_run h hus hrewound
    have hnot : ¬x.beats e.start < 0.0 := (hstart.mul hbeat).not_lt_zero
    exact ⟨e, he, hnot, (hcoincide e (List.mem_of_getElem? he)).mpr hnot⟩

attribute [local instance] Memory.sixteenGigabytes in
/-- A note in the second bar of a score without resets. -/
theorem noteTimes_of_run_secondBar :
  let t := "| (Cn_4 1/4) | (En_4 1/4)".toList
  let x : Exporter := ⟨120.0, 80⟩
  ∃ (cs : List Command) (p : Performance Float) (e : Event Float), Score.read t = .ok cs ∧
    Performance.run {} cs = .ok p ∧ 0.0 < x.tempo ∧ p.events[1]? = some e ∧
    ¬x.beats e.start < 0.0 ∧ Coincide (x.beats e.start) (x.beats e.heardFrom)
  := by
  intro t x
  let bar : Command := ⟨.measure, ['|']⟩
  let us : List Command := [bar, ⟨.note "Cn_4".toList, "1/4".toList⟩, bar]
  let cs := us ++ [⟨.note "En_4".toList, "1/4".toList⟩]
  have hread : Score.read t = .ok cs := by
    decide +kernel
  obtain ⟨p, hp⟩ : ∃ p : Performance Float, Performance.run {} cs = .ok p := by
    apply Performance.exists_run
    · decide +kernel
    · decide +kernel
  have hx : 0.0 < x.tempo := by
    decide +kernel
  have hdashless : ∀ c ∈ us, c.Dashless := by
    intro c hc
    apply Score.dashless_of_read hread c (List.mem_append_left _ hc)
  have hrewound : ¬Rewound us := by
    rintro ⟨vs, c, ws, hsplit, -, -, as, reset, bs, rfl, hreset, -⟩
    have hmem : reset ∈ us := by
      simp [hsplit]
    have hnone : ∀ c ∈ us, c.verb ≠ .reset := by
      decide
    apply hnone reset hmem hreset
  obtain ⟨e, he, hnot, hcoincide⟩ :=
    (noteTimes_of_run {} hp x hx).2.2.2 us _ _ [] rfl hdashless hrewound
  exact ⟨cs, p, e, hread, hp, hx, he, hnot, hcoincide⟩

attribute [local instance] Memory.sixteenGigabytes in
/-- Behind a reset that stands in front of all checkpoints a note is written four beats in front of
the start. -/
theorem not_noteTimes_of_run_reset :
  let t := ";\n| (Cn_4 1/4)".toList
  let x : Exporter := ⟨60.0, 80⟩
  ∃ (cs : List Command) (p : Performance Float) (e : Event Float), Score.read t = .ok cs ∧
    Performance.run {} cs = .ok p ∧ 0.0 < x.tempo ∧ p.events = [e] ∧
    (exportTo x p.events ⟨[], false⟩ []).calls.filterMap Call.time? = [-4.0] ∧
    x.beats e.start = -4.0 ∧ ¬Coincide (x.beats e.start) (x.beats e.heardFrom)
  := by
  intro t x
  let cs : List Command := [⟨.reset, []⟩, ⟨.measure, ['|']⟩, ⟨.note "Cn_4".toList, "1/4".toList⟩]
  have hread : Score.read t = .ok cs := by
    decide +kernel
  obtain ⟨p, hp⟩ : ∃ p : Performance Float, Performance.run {} cs = .ok p := by
    apply Performance.exists_run
    · decide +kernel
    · decide +kernel
  have hx : 0.0 < x.tempo := by
    decide +kernel
  let events : List (Event Float) := (Transport.initial.schedule cs).events
  have hevents : events = p.events := congrArg Schedule.events (Performance.schedule_of_run hp).1
  have hcalls : (exportTo x events ⟨[], false⟩ []).calls.filterMap Call.time? = [-4.0] := by
    decide +kernel
  have htimes : events.map (fun e => (x.beats e.start, x.beats e.heardFrom)) = [(-4.0, 0.0)] := by
    decide +kernel
  rw [hevents] at hcalls htimes
  obtain ⟨e, he⟩ := List.length_eq_one_iff.mp (Performance.length_events_of_run hp)
  rw [he, List.map_singleton, List.singleton_inj, Prod.mk.injEq] at htimes
  refine ⟨cs, p, e, hread, hp, hx, he, hcalls, htimes.1, ?_⟩
  rw [htimes.1, htimes.2, Coincide]
  decide +kernel

end Midi

end Tunescript
