import Mathlib.Data.List.Forall2
import Tunescript.Midi.Sequence
import Tunescript.Proofs.Number.Sign
import Tunescript.Proofs.Pitch.Keys
import Tunescript.Proofs.Score.Alike

/-!
# The tracks of an export

The voices are numbered in the order in which they first appear (`mem_voices`, `pairwise_voices`),
and each has a track of its own and a channel that is not the percussion's.  Every event that is no
rest and whose duration is not at most zero becomes one note on the track of its voice, and nothing
else does (`transcribes_of_frequencies`).
-/

namespace Tunescript.Midi

/-- Whether a call writes a note. -/
def Call.isNote : Call → Bool
  | note .. => true
  | _ => false

/-- The track that a call is for. -/
def Call.track? : Call → Option Nat
  | tracks _ => none
  | tempo track _ | name track _ | program track _ _ | note track .. => some track

/-- The calls in front of the notes: the tempo, and for every voice its name, its channel and its
program. -/
def Exporter.opening (x : Exporter) (voices : List Text) : List Call :=
  .tracks (voices.length + 1) :: .tempo 0 x.tempo :: voices.zipIdx.flatMap fun (voice, i) =>
    [.name (i + 1) voice, .program (i + 1) (channel i) (program voice)]

/-- A call that writes an event as a note: on the track and the channel of its voice, with the key
of its frequency and at its place. -/
def Writes (x : Exporter) (voices : List Text) (c : Call) (e : Event Float) : Prop :=
  ∃ (i : Nat) (pitch : Int), voices[i]? = some e.voice ∧ Pitch.nearestKey e.frequency = .ok pitch ∧
    0 ≤ pitch ∧ pitch ≤ 127 ∧
    c = .note (i + 1) (channel i) pitch (x.beats e.start) (x.beats e.duration) x.velocity

/-- Calls that write events: a track for every voice, and a note for every event that sounds for
some time. -/
structure Transcribes (x : Exporter) (events : List (Event Float)) (calls : List Call) : Prop where
  /-- The voices are those of the events. -/
  voices : ∀ v, v ∈ voices events ↔ ∃ e ∈ events, e.voice = v
  /-- The voices are in the order in which they first appear. -/
  order : (Midi.voices events).Pairwise fun v w =>
    (events.map Event.voice).idxOf v < (events.map Event.voice).idxOf w
  /-- In front of the notes every voice gets its track and its channel. -/
  opening : calls.filter (!·.isNote) = x.opening (Midi.voices events)
  /-- The notes are those of the events that sound and whose duration is not at most zero, in their
  order. -/
  notes : List.Forall₂ (Writes x (Midi.voices events)) (calls.filter Call.isNote)
    (events.filter fun e => !e.isRest && (0.0 < e.duration || e.duration.isNaN))
  /-- The first track has the tempo only. -/
  conductor : ∀ c ∈ calls, c.track? = some 0 → c = .tempo 0 x.tempo

section Voices

variable (events : List (Event Float)) (e : Event Float)

/-- A further event adds its voice if it is a new one. -/
theorem voices_concat :
  voices (events ++ [e]) =
    if e.voice ∈ voices events then voices events else voices events ++ [e.voice]
  := by
  rw [voices, List.foldl_append, List.foldl_cons, List.foldl_nil, ← voices]
  simp only [List.contains_iff_mem]

/-- The voices are those of the events. -/
theorem mem_voices (v : Text) :
  v ∈ voices events ↔ v ∈ events.map Event.voice
  := by
  induction events using List.reverseRecOn with
  | nil => rfl
  | append_singleton events e ih =>
    rw [voices_concat, List.map_append, List.mem_append, ← ih, List.map_singleton,
      List.mem_singleton]
    split
    · rename_i hvoice
      constructor
      · apply Or.inl
      · rintro (hv | rfl)
        · exact hv
        · exact hvoice
    · rw [List.mem_append, List.mem_singleton]

/-- The voices are in the order in which they first appear. -/
theorem pairwise_voices :
  (voices events).Pairwise fun v w =>
    (events.map Event.voice).idxOf v < (events.map Event.voice).idxOf w
  := by
  induction events using List.reverseRecOn with
  | nil => exact List.Pairwise.nil
  | append_singleton events e ih =>
    rw [List.map_append, List.map_singleton]
    -- The first place of a voice stays where it is.
    have hplace {v : Text} (hv : v ∈ voices events) :
        (events.map Event.voice ++ [e.voice]).idxOf v = (events.map Event.voice).idxOf v := by
      apply List.idxOf_append_of_mem ((mem_voices events v).mp hv)
    have hbefore : (voices events).Pairwise fun v w =>
        (events.map Event.voice ++ [e.voice]).idxOf v <
          (events.map Event.voice ++ [e.voice]).idxOf w := by
      apply ih.imp_of_mem
      intro v w hv hw hlt
      rw [hplace hv, hplace hw]
      apply hlt
    rw [voices_concat]
    split
    · apply hbefore
    · rename_i hnew
      apply List.pairwise_append.mpr
      refine ⟨hbefore, List.pairwise_singleton .., ?_⟩
      intro v hv w hw
      obtain rfl := List.mem_singleton.mp hw
      rw [hplace hv, List.idxOf_append_of_notMem ((mem_voices events e.voice).not.mp hnew)]
      have hlt := List.idxOf_lt_length_of_mem ((mem_voices events v).mp hv)
      omega

end Voices

section Channels

/-- A channel is one of sixteen, and not that of the percussion. -/
theorem channel_lt_and_ne (i : Int) :
  channel i < 16 ∧ channel i ≠ 9
  := by
  have hlength : melodicChannels.length = 15 := rfl
  have hi : (i % (melodicChannels.length : Int)).toNat < melodicChannels.length := by
    rw [hlength]
    omega
  have hmem : channel i ∈ melodicChannels := by
    rw [channel, List.getD_eq_getElem _ _ hi]
    apply List.getElem_mem
  obtain ⟨hrange, hne⟩ := List.mem_filter.mp hmem
  exact ⟨List.mem_range.mp hrange, bne_iff_ne.mp hne⟩

/-- The first fifteen voices have different channels. -/
theorem channel_inj {i j : Nat} (hi : i < 15) (hj : j < 15) (h : channel i = channel j) :
  i = j
  := by
  have hall : ∀ i j : Fin 15, channel (i : Nat) = channel (j : Nat) → i = j := by decide
  apply Fin.mk.inj_iff.mp (hall ⟨i, hi⟩ ⟨j, hj⟩ h)

end Channels

section Notes

/-- An event is written if it sounds and its duration is above zero or undefined. -/
theorem isWritten_eq (e : Event Float) :
  isWritten e = (!e.isRest && (0.0 < e.duration || e.duration.isNaN))
  := by
  have hle := Binary64.not_le_zero_iff (x := e.duration)
  rw [isWritten]
  congr 1
  rw [Bool.eq_iff_iff, Bool.not_eq_true', decide_eq_false_iff_not, hle, Bool.or_eq_true,
    decide_eq_true_iff]

variable {x : Exporter} {vs : List Text} {e : Event Float}

/-- An event of a note that is no rest is written as one. -/
theorem exists_noteCall (hvoice : e.voice ∈ vs) (hrest : e.isRest = false)
    (hfrequency : ∃ name, Pitch.frequency? name = some e.frequency) :
  ∃ c, noteCall x vs e = .ok c ∧ Writes x vs c e
  := by
  obtain ⟨name, hname⟩ := hfrequency
  obtain ⟨key, hkey, hlow, hhigh⟩ := Pitch.nearestKey_of_frequency? hname hrest
  have hpitch : pitch e.frequency = .ok key := by
    rw [pitch, hkey]
    change Except.ok (min (max key 0) 127) = _
    congr 1
    omega
  refine ⟨_, by rw [noteCall, hpitch]; rfl, vs.idxOf e.voice, key, ?_, hkey, by omega, by omega,
    rfl⟩
  apply List.getElem?_idxOf hvoice

/-- Calls that can all be made are those of a list. -/
theorem exists_map_ok {f : Event Float → Except ArithmeticFault Call}
    {R : Call → Event Float → Prop} {events : List (Event Float)}
    (h : ∀ e ∈ events, ∃ c, f e = .ok c ∧ R c e) :
  ∃ cs, events.map f = cs.map .ok ∧ List.Forall₂ R cs events
  := by
  induction events with
  | nil => exact ⟨[], rfl, .nil⟩
  | cons e events ih =>
    obtain ⟨c, hc, hR⟩ := h e List.mem_cons_self
    obtain ⟨cs, hcs, hRs⟩ := ih fun e he => h e (List.mem_cons_of_mem _ he)
    exact ⟨c :: cs, by rw [List.map_cons, List.map_cons, hc, hcs], .cons hR hRs⟩

end Notes

section Made

variable {s : Sequence} (calls : List Call)

/-- Calls are made in their order, up to the first that fails. -/
theorem prefix_build :
  (build s (calls.map .ok)).calls <+: calls
  := by
  induction calls generalizing s with
  | nil => exact List.prefix_rfl
  | cons c calls ih =>
    rw [List.map_cons, build]
    split
    · exact ⟨calls, rfl⟩
    · apply (List.prefix_cons_inj c).mpr ih

/-- All calls are made if none fails. -/
theorem build_eq_of_ok {built : Sequence} (h : (build s (calls.map .ok)).result = .ok built) :
  (build s (calls.map .ok)).calls = calls
  := by
  induction calls generalizing s with
  | nil => rfl
  | cons c calls ih =>
    rw [List.map_cons, build] at h ⊢
    split at h
    · cases h
    · apply congrArg (c :: ·) (ih h)

theorem calls_exportTo (x : Exporter) (events : List (Event Float)) (fs : Files) (path : Text) :
  (exportTo x events fs path).calls = (build [] (plan x events)).calls
  := by
  rw [exportTo]
  dsimp only
  split
  · rfl
  · rfl

end Made

section Plan

variable {x : Exporter} {events : List (Event Float)} {voices : List Text} {c : Call}

theorem Writes.isNote {e : Event Float} (h : Writes x voices c e) :
  c.isNote ∧ c.track? ≠ some 0
  := by
  obtain ⟨i, pitch, -, -, -, -, rfl⟩ := h
  simp [Call.isNote, Call.track?]

/-- In front of the notes there is none, and only the tempo is on the first track. -/
theorem Exporter.of_mem_opening (h : c ∈ x.opening voices) :
  ¬c.isNote ∧ (c.track? = some 0 → c = .tempo 0 x.tempo)
  := by
  obtain rfl | h := List.mem_cons.mp h
  · simp [Call.isNote, Call.track?]
  obtain rfl | h := List.mem_cons.mp h
  · simp [Call.isNote]
  obtain ⟨⟨voice, i⟩, -, h⟩ := List.mem_flatMap.mp h
  obtain rfl | h := List.mem_cons.mp h
  · simp [Call.isNote, Call.track?]
  obtain rfl := List.mem_singleton.mp h
  simp [Call.isNote, Call.track?]

/-- The opening and the notes of the events together write them. -/
theorem transcribes_append {notes : List Call}
    (h : List.Forall₂ (Writes x (Midi.voices events)) notes (events.filter isWritten)) :
  Transcribes x events (x.opening (Midi.voices events) ++ notes)
  := by
  obtain ⟨hnotes, -⟩ := (List.forall₂_and_left _ _).mp (h.imp fun c e he => ⟨Writes.isNote he, he⟩)
  constructor
  case voices =>
    intro v
    rw [mem_voices, List.mem_map]
  case order => apply pairwise_voices
  case opening =>
    rw [List.filter_append, List.filter_eq_self.mpr, List.filter_eq_nil_iff.mpr, List.append_nil]
    · intro c hc
      simp [(hnotes c hc).1]
    · intro c hc
      simp [(Exporter.of_mem_opening hc).1]
  case notes =>
    rw [List.filter_append, List.filter_eq_nil_iff.mpr, List.nil_append, List.filter_eq_self.mpr]
    · simp only [← isWritten_eq]
      apply h
    · intro c hc
      exact (hnotes c hc).1
    · intro c hc
      exact (Exporter.of_mem_opening hc).1
  case conductor =>
    intro c hc hzero
    obtain hc | hc := List.mem_append.mp hc
    · apply (Exporter.of_mem_opening hc).2 hzero
    · cases (hnotes c hc).2 hzero

end Plan

/-- An export of events with frequencies of notes loses none that sounds for some time and writes
none twice.  The calls that are made are those that write the events, all of them unless the
sequence cannot hold one.  The channels of the first fifteen voices are different, and none is that
of the percussion. -/
theorem transcribes_of_frequencies {tempo : Float} (htempo : 0.0 < tempo) (velocity : Int)
    {events : List (Event Float)}
    (hfrequencies : ∀ e ∈ events, ∃ name, Pitch.frequency? name = some e.frequency) :
  Exporter.make tempo velocity = .ok ⟨tempo, velocity⟩ ∧
  (∃ calls, plan ⟨tempo, velocity⟩ events = calls.map .ok ∧
    Transcribes ⟨tempo, velocity⟩ events calls ∧
    ∀ fs path, (exportTo ⟨tempo, velocity⟩ events fs path).calls <+: calls ∧
      ∀ s, (build [] (plan ⟨tempo, velocity⟩ events)).result = .ok s →
        (exportTo ⟨tempo, velocity⟩ events fs path).calls = calls) ∧
  (∀ i, channel i < 16 ∧ channel i ≠ 9) ∧
  ∀ i j : Nat, i < 15 → j < 15 → channel i = channel j → i = j
  := by
  have hmake : Exporter.make tempo velocity = .ok ⟨tempo, velocity⟩ := by
    apply if_neg
    apply Binary64.not_le_zero_iff.mpr (.inl htempo)
  obtain ⟨notes, hplanned, hnotes⟩ : ∃ notes,
      (events.filter isWritten).map (noteCall ⟨tempo, velocity⟩ (voices events)) = notes.map .ok ∧
      List.Forall₂ (Writes ⟨tempo, velocity⟩ (voices events)) notes (events.filter isWritten) := by
    apply exists_map_ok
    intro e he
    obtain ⟨hmem, hwritten⟩ := List.mem_filter.mp he
    have hvoice : e.voice ∈ voices events :=
      (mem_voices events e.voice).mpr (List.mem_map_of_mem hmem)
    have hrest : e.isRest = false := by
      rw [isWritten, Bool.and_eq_true, Bool.not_eq_true'] at hwritten
      apply hwritten.1
    apply exists_noteCall hvoice hrest (hfrequencies e hmem)
  have hplan : plan ⟨tempo, velocity⟩ events =
      (Exporter.opening ⟨tempo, velocity⟩ (voices events) ++ notes).map .ok := by
    rw [plan, hplanned, List.map_append]
    rfl
  refine ⟨hmake, ⟨_, hplan, transcribes_append hnotes, ?_⟩, channel_lt_and_ne,
    fun i j => channel_inj⟩
  intro fs path
  rw [calls_exportTo, hplan]
  refine ⟨prefix_build _, ?_⟩
  intro s hs
  apply build_eq_of_ok _ hs

/-- Of two voices, a rest and a note without a length, the two notes that sound are written. -/
theorem transcribes_of_frequencies_twoVoices :
  let x : Exporter := ⟨120.0, 80⟩
  let events : List (Event Float) := [
    ⟨"An_4".toList, 440.0, "square".toList, 0.0, 0.5, 0⟩,
    ⟨"Rest".toList, 0.0 / 0.0, "sine".toList, 0.5, 0.5, 0⟩,
    ⟨"An_4".toList, 440.0, "sine".toList, 1.0, 1.0, 0⟩,
    ⟨"An_4".toList, 440.0, "square".toList, 2.0, 0.0, 0⟩]
  0.0 < x.tempo ∧ (∀ e ∈ events, ∃ name, Pitch.frequency? name = some e.frequency) ∧
    ∃ calls, plan x events = calls.map .ok ∧ Transcribes x events calls ∧
      calls.countP Call.isNote = 2
  := by
  intro x events
  have htempo : 0.0 < x.tempo := by
    decide +kernel
  have hfrequencies : ∀ e ∈ events, ∃ name, Pitch.frequency? name = some e.frequency := by
    have hnames : ∀ e ∈ events, Pitch.frequency? e.name = some e.frequency := by
      decide +kernel
    exact fun e he => ⟨e.name, hnames e he⟩
  obtain ⟨-, ⟨calls, hplan, hcalls, -⟩, -⟩ :=
    transcribes_of_frequencies htempo x.velocity hfrequencies
  refine ⟨htempo, hfrequencies, calls, hplan, hcalls, ?_⟩
  rw [List.countP_eq_length_filter, hcalls.notes.length_eq]
  decide +kernel

/-- An event whose duration is undefined is written although it is not above zero, and the tempo is
on the first track. -/
theorem not_transcribes_of_frequencies_undefined :
  let x : Exporter := ⟨60.0, 80⟩
  let e : Event Float := ⟨"An_4".toList, 440.0, "sine".toList, 0.0, 0.0 / 0.0, 0⟩
  let calls := (exportTo x [e] ⟨[], false⟩ []).calls
  0.0 < x.tempo ∧ Pitch.frequency? e.name = some e.frequency ∧
    ¬List.Forall₂ (Writes x (voices [e])) (calls.filter Call.isNote)
      ([e].filter fun e => !e.isRest && 0.0 < e.duration) ∧
    calls.countP (fun c => c.track? == some 0) = 1
  := by
  intro x e calls
  have hlengths : (calls.filter Call.isNote).length = 1 ∧
      ([e].filter fun e => !e.isRest && 0.0 < e.duration).length = 0 := by
    decide +kernel
  refine ⟨by decide +kernel, by decide +kernel, ?_, by decide +kernel⟩
  intro h
  have hlength := h.length_eq
  omega

end Tunescript.Midi
