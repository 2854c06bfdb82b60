import Mathlib.Data.List.Forall2
import Tunescript.Proofs.Performance.Schedule
import Tunescript.Proofs.Sound.Mixing

/-!
# The sound of a performance

A run adds the sound of an event to the track in the step that adds the event to the performance
(`record_step`), so that the track of a performance is the mix of the sounds of its events, one for
each of them and in their order (`record_run`).  Together with what a track holds that says what is
heard of a performance (`track_eq_mixdown`).
-/

namespace Tunescript

open Score (bind_eq_ok map_eq_ok)
open Track (Sound)

variable {α : Type} [Scalar α]

/-- The sound is that of the event: it starts where the event does, is as long as the event, and
holds the wave of the event's voice times the volume, or scaled silence if the event is a rest. -/
structure Event.SampledAs (playback : Playback) (e : Event α) (s : Sound Float) : Prop where
  /-- The start in samples is cut down to an integer, and what lies before the track starts with
  it. -/
  start : ∃ rate first, Scalar.ofBoundedInt playback.rate = .ok rate ∧
    Scalar.truncate (e.start * rate) = .ok first ∧ (s.start : Int) = max 0 first
  /-- The length in samples is cut down to an integer, and there are no samples if that is
  negative. -/
  size : ∃ rate count, Scalar.ofBoundedInt playback.rate = .ok rate ∧
    Scalar.truncate (rate * e.duration) = .ok count ∧ (s.samples.size : Int) = max 0 count
  /-- Every sample of a note is the amplitude of its voice at the time of the sample, cut down to
  the range of a sample and scaled by the volume. -/
  note : e.isRest = false → ∀ (i : Nat) (h : i < s.samples.size), s.samples[i] =
    clamp ((Oscillator.ofVoice e.voice).amplitude e.frequency
      (Float.ofNat i / Float.ofInt playback.rate)) * playback.volume
  /-- Every sample of a rest is zero, scaled by the volume. -/
  rest : e.isRest = true → ∀ (i : Nat) (h : i < s.samples.size),
    s.samples[i] = clamp 0.0 * playback.volume

section Samples

variable (e : Event α) (playback : Playback)

omit [Scalar α] in
@[simp]
theorem Event.size_samples (count : Nat) :
  (e.samples playback count).size = count
  := by
  rw [Event.samples, Array.size_map, sampled, Array.size_ofFn]

omit [Scalar α] in
/-- A sample that is mixed in is the amplitude of the oscillator, clamped and scaled. -/
theorem Event.getElem_samples {count i : Nat} (h : i < (e.samples playback count).size) :
  (e.samples playback count)[i] = clamp (e.oscillator.amplitude e.frequency
    (Float.ofNat i / Float.ofInt playback.rate)) * playback.volume
  := by
  simp only [Event.samples, sampled, Array.getElem_map, Array.getElem_ofFn]

end Samples

/-- The length of a sound is that of the event in samples. -/
theorem eq_max_of_sampleCount [Memory] {rate : Int} {seconds : α} {n : Nat}
    (h : sampleCount rate seconds = .ok n) :
  ∃ r count, Scalar.ofBoundedInt rate = .ok r ∧ Scalar.truncate (r * seconds) = .ok count ∧
    (n : Int) = max 0 count
  := by
  obtain ⟨r, hr, h⟩ := bind_eq_ok h
  obtain ⟨count, hcount, h⟩ := bind_eq_ok h
  refine ⟨r, count, hr, hcount, ?_⟩
  rw [← Capacity.eq_of_ofSound h]
  omega

/-- An event that can be sounded has the sound that is mixed in for it. -/
theorem Event.sampledAs_of_span [Memory] {playback : Playback} {e : Event α} {first count : Nat}
    (h : e.span playback = .ok (first, count)) :
  e.SampledAs playback ⟨first, e.samples playback count⟩
  := by
  obtain ⟨n, hn, h⟩ := bind_eq_ok h
  obtain ⟨m, hm, h⟩ := bind_eq_ok h
  obtain ⟨k, -, h⟩ := bind_eq_ok h
  cases h
  obtain ⟨rate, hrate, hfirst⟩ := bind_eq_ok hm
  obtain ⟨i, hi, hfirst⟩ := bind_eq_ok hfirst
  cases hfirst
  constructor
  · refine ⟨rate, i, hrate, hi, ?_⟩
    dsimp only
    omega
  · obtain ⟨r, k, hr, hk, hcount⟩ := eq_max_of_sampleCount hn
    exact ⟨r, k, hr, hk, by rw [Event.size_samples, hcount]⟩
  · intro hnote i hi
    rw [Event.getElem_samples, Event.oscillator, hnote]
    rfl
  · intro hrest i hi
    rw [Event.getElem_samples, Event.oscillator, hrest]
    rfl

namespace Performance

variable {playback : Playback} {p q : Performance α}

section Recording

variable [Memory]

/-- A command adds events, and mixes in the sounds of these. -/
theorem record_step {c : Command} (h : step playback p c = .ok q) :
  ∃ es ss, q.events = p.events ++ es ∧ List.Forall₂ (Event.SampledAs playback) es ss ∧
    q.track = p.track.record ss
  := by
  obtain ⟨verb, noun⟩ := c
  cases verb with
  | note name =>
    rw [step] at h
    dsimp only at h
    cases hplace : p.transport.place name noun with
    | error e =>
      rw [hplace] at h
      cases h
    | ok e =>
      rw [hplace] at h
      dsimp only at h
      rw [add_eq] at h
      cases hspan : e.span playback with
      | error f =>
        rw [hspan] at h
        cases h
      | ok r =>
        rw [hspan] at h
        cases h
        exact ⟨[e], _, rfl, .cons (Event.sampledAs_of_span hspan) .nil, rfl⟩
  | _ =>
    rw [step] at h
    dsimp only at h
    split at h
    · cases h
    · cases h
      exact ⟨[], [], (List.append_nil _).symm, .nil, rfl⟩

theorem record_foldlM {cs : List Command} (h : cs.foldlM (step playback) p = .ok q) :
  ∃ es ss, q.events = p.events ++ es ∧ List.Forall₂ (Event.SampledAs playback) es ss ∧
    q.track = p.track.record ss
  := by
  induction cs generalizing p with
  | nil =>
    cases h
    exact ⟨[], [], (List.append_nil _).symm, .nil, rfl⟩
  | cons c cs ih =>
    rw [List.foldlM_cons] at h
    obtain ⟨r, hstep, hrest⟩ := bind_eq_ok h
    obtain ⟨es, ss, hevents, hsampled, htrack⟩ := record_step hstep
    obtain ⟨es', ss', hevents', hsampled', htrack'⟩ := ih hrest
    refine ⟨es ++ es', ss ++ ss', ?_, List.rel_append hsampled hsampled', ?_⟩
    · rw [hevents', hevents, List.append_assoc]
    · rw [htrack', htrack, Track.record_append]

/-- The track of a performance is recorded from the sounds of its events. -/
theorem record_run {cs : List Command} (h : run playback cs = .ok p) :
  ∃ ss, List.Forall₂ (Event.SampledAs playback) p.events ss ∧ p.track = Track.empty.record ss
  := by
  obtain ⟨es, ss, hevents, hsampled, htrack⟩ := record_foldlM h
  obtain rfl : p.events = es := hevents
  exact ⟨ss, hsampled, htrack⟩

/-- A track is the row of the sounds that are mixed into it.  The track of a performance is that of
the sounds of its events.  In exact arithmetic, where sums do not depend on the order of what is
added, it does not depend on the order of the sounds. -/
theorem track_eq_mixdown (playback : Playback) :
  (∀ (β : Type) [Add β] [OfNat β 0] (ss : List (Sound β)),
      (Track.empty.record ss).samples.toList = Track.mixdown ss) ∧
    (∀ (cs : List Command) (p : Performance α), run playback cs = .ok p →
      ∃ ss, List.Forall₂ (Event.SampledAs playback) p.events ss ∧
        p.track.samples.toList = Track.mixdown ss) ∧
    ∀ (β : Type) [Add β] [OfNat β 0], (∀ x y z : β, x + y + z = x + z + y) →
      ∀ ss ss' : List (Sound β), ss.Perm ss' →
        (Track.empty.record ss).samples = (Track.empty.record ss').samples
  := by
  refine ⟨fun β _ _ ss => Track.samples_record ss, ?_, ?_⟩
  · intro cs p h
    obtain ⟨ss, hsampled, htrack⟩ := record_run h
    exact ⟨ss, hsampled, by rw [htrack, Track.samples_record]⟩
  · intro β _ _ hadd ss ss' h
    apply Array.toList_inj.mp
    rw [Track.samples_record, Track.samples_record, Track.mixdown_perm hadd h]

end Recording

attribute [local instance] Memory.sixteenGigabytes in
/-- A quarter note and a rest are mixed one after the other; sounds of integers can be mixed in
reverse, with a gap between them. -/
theorem track_eq_mixdown_noteAndRest :
  let cs : List Command := [⟨.measure, ['|']⟩, ⟨.note "An_4".toList, "1/4".toList⟩,
    ⟨.note "Rest".toList, "1/4".toList⟩]
  let first : Sound Int := ⟨0, #[1, 2]⟩
  let second : Sound Int := ⟨3, #[5]⟩
  (∃ p : Performance Float, run {} cs = .ok p ∧
      ∃ ss, List.Forall₂ (Event.SampledAs {}) p.events ss ∧
        p.track.samples.toList = Track.mixdown ss) ∧
    (Track.empty.record [first, second]).samples = #[1, 2, 0, 5] ∧
    (Track.empty.record [second, first]).samples = #[1, 2, 0, 5]
  := by
  intro cs first second
  obtain ⟨hrow, hplayed, horder⟩ := track_eq_mixdown {} (α := Float)
  have hfirst : (Track.empty.record [first, second]).samples = #[1, 2, 0, 5] := by
    apply Array.toList_inj.mp
    rw [hrow]
    decide
  refine ⟨?_, hfirst, ?_⟩
  · obtain ⟨p, hp⟩ : ∃ p : Performance Float, run {} cs = .ok p := by
      apply exists_run
      · decide +kernel
      · decide +kernel
    exact ⟨p, hp, hplayed cs p hp⟩
  · rw [← hfirst]
    apply horder Int Int.add_right_comm
    apply List.Perm.swap

end Performance

end Tunescript
