import Tunescript.Proofs.Layout.Formattable
import Tunescript.Proofs.Performance.Schedule
import Tunescript.Sound.Render

/-!
# Scores that are answered

A score is answered if it can be formatted and playing it gives a performance or tells which command
makes no sense.  That is so exactly if the starts and the lengths of its events, counted in samples,
and the widths under the notes of its lines are numbers, and memory holds them
(`answered_iff_numbers`).  Numerals have no bound, so that some scores are not answered
(`not_answered_iff_numbers_hugeNotes`).
-/

namespace Tunescript

open Binary64 (IsNumber)
open Score (bind_eq_ok map_eq_ok)

namespace Event

variable {e : Event Float} {playback : Playback}

/-- The start of an event in samples. -/
def samplesBefore (e : Event Float) (rate : Int) : Float := e.start * Scalar.ofInt rate

/-- The length of an event in samples. -/
def samplesLong (e : Event Float) (rate : Int) : Float := Scalar.ofInt rate * e.duration

/-- The start and the length of an event in samples are numbers. -/
def Numbered (e : Event Float) (rate : Int) : Prop :=
  IsNumber (e.samplesBefore rate) ∧ IsNumber (e.samplesLong rate)

/-- Memory holds the samples up to the end of an event, those before the track left out. -/
def InMemory [Memory] (e : Event Float) (rate : Int) : Prop :=
  ∀ first count, Scalar.truncate (e.samplesBefore rate) = .ok first →
    Scalar.truncate (e.samplesLong rate) = .ok count →
      Capacity.sampleSize * (first.toNat + count.toNat) < Memory.size

/-- An event sounds exactly if its samples are counted by numbers and memory holds them. -/
theorem sounds_iff [Memory] (hrate : playback.rate.natAbs < Binary64.integerBound) :
  e.Sounds playback ↔ e.Numbered playback.rate ∧ e.InMemory playback.rate
  := by
  have hbound : Scalar.ofBoundedInt playback.rate = .ok (Scalar.ofInt playback.rate : Float) :=
    if_neg (Nat.not_le.mpr hrate)
  have hsample : e.firstSample playback.rate =
      (Scalar.truncate (e.samplesBefore playback.rate)).map Int.toNat := by
    rw [firstSample, hbound]
    rfl
  have hcount : sampleCount playback.rate e.duration =
      Scalar.truncate (e.samplesLong playback.rate) >>= fun n => Capacity.ofSound n.toNat := by
    rw [sampleCount, hbound]
    rfl
  constructor
  · rintro ⟨r, hr⟩
    obtain ⟨n, hn, hr⟩ := bind_eq_ok hr
    obtain ⟨m, hm, hr⟩ := bind_eq_ok hr
    obtain ⟨k, hk, -⟩ := bind_eq_ok hr
    rw [hcount] at hn
    obtain ⟨count, hlong, hn⟩ := bind_eq_ok hn
    obtain rfl := Capacity.eq_of_ofSound hn
    rw [hsample] at hm
    obtain ⟨first, hbefore, rfl⟩ := map_eq_ok hm
    constructor
    · exact ⟨Binary64.exists_truncate_iff.mp ⟨_, hbefore⟩,
        Binary64.exists_truncate_iff.mp ⟨_, hlong⟩⟩
    · intro first' count' hfirst' hcount'
      cases hbefore.symm.trans hfirst'
      cases hlong.symm.trans hcount'
      exact (Capacity.exists_ofTrack_iff _).mp ⟨k, hk⟩
  · rintro ⟨⟨hstart, hduration⟩, hmemory⟩
    obtain ⟨first, hbefore⟩ := Binary64.exists_truncate_iff.mpr hstart
    obtain ⟨count, hlong⟩ := Binary64.exists_truncate_iff.mpr hduration
    have htrack := hmemory first count hbefore hlong
    have hsound : Capacity.sampleSize * count.toNat < Memory.size :=
      Nat.lt_of_le_of_lt (Nat.mul_le_mul_left _ (Nat.le_add_left _ _)) htrack
    obtain ⟨k, hk⟩ := (Capacity.exists_ofTrack_iff _).mpr htrack
    obtain ⟨n, hn⟩ := (Capacity.exists_ofSound_iff _).mpr hsound
    obtain rfl := Capacity.eq_of_ofSound hn
    use (first.toNat, count.toNat)
    rw [span, hcount, hlong, hsample, hbefore]
    simp only [bind, Except.bind, Except.map, hn, hk]
    rfl

end Event

/-- Rendering a score gives a performance, or tells why the text is no score, or which command makes
no sense. -/
def RenderAnswers [Memory] (t : Text) : Prop :=
  (∃ p, render t 44100 = .ok p) ∨ (∃ e, render t 44100 = .error (.parse e)) ∨
    ∃ e, render t 44100 = .error (.run (.play e))

theorem renderAnswers_iff [Memory] {t : Text} :
  RenderAnswers t ↔ ∀ cs, Score.read t = .ok cs →
    ∀ e ∈ (Transport.initial.schedule cs).events, e.Numbered 44100 ∧ e.InMemory 44100
  := by
  cases hread : Score.read t with
  | error e =>
    have hrender : render t 44100 = .error (.parse e) := by
      rw [render, hread]
      rfl
    simp [RenderAnswers, hrender]
  | ok cs =>
    have hrender : render t 44100 = (Performance.run {} cs).mapError .run := by
      rw [render, hread]
      rfl
    have hrate : (44100 : Int).natAbs < Binary64.integerBound := by decide +kernel
    have hsounds (e : Event Float) :
        e.Sounds {} ↔ e.Numbered 44100 ∧ e.InMemory 44100 := Event.sounds_iff hrate
    have hends := (Performance.ends_run {} cs (α := Float)).answers_iff
    simp only [hsounds] at hends
    simp only [Except.ok.injEq, forall_eq', ← hends, RenderAnswers, hrender]
    cases (Performance.run {} cs : Except RunError (Performance Float)) with
    | ok p => simp [Except.mapError]
    | error e => simp [Except.mapError]

/-- A score is answered exactly if its events are counted by numbers of samples, the columns under
its notes have widths that are numbers, and memory holds the samples and the columns of each
line. -/
theorem answered_iff_numbers [Memory] (t : Text) :
  (RenderAnswers t ↔ ∀ cs, Score.read t = .ok cs →
      ∀ e ∈ (Transport.initial.schedule cs).events, e.Numbered 44100 ∧ e.InMemory 44100) ∧
    ((∃ t', Layout.format t = .ok t') ↔ ∀ s ∈ Layout.sections (Text.lines t), ∀ line ∈ s.block,
      Score.isCommentLine line = false → ∀ cs, Score.read line = .ok cs →
        (∀ n : Layout.LaidOut (Layout.layoutBlock s.block) cs, IsNumber n.width) ∧
          Layout.LineFits (Layout.layoutBlock s.block : List (List (Layout.Segment Float))) cs)
  := by
  constructor
  · apply renderAnswers_iff
  · simp only [Layout.format, Layout.exists_formatIn_iff, Layout.room_iff]

/-- A text of a note whose numerals exceed all numbers, of quarter notes behind it, and of notes
that are as long as numbers are. -/
def hugeNotes : Text :=
  "(Cn_4 ".toList ++ List.replicate 310 '9' ++ '/' :: List.replicate 310 '9'
    ++ ")(Cn_4 1/4)(Cn_4 1/4)(Cn_4 1/4)\n(Cn_4 1".toList ++ List.replicate 307 '0'
    ++ "/1)\n(Cn_4 1/1)".toList

/-- The fault at which rendering ends. -/
def renderFault? [Memory] (t : Text) : Option ArithmeticFault :=
  match render t 44100 with
  | .error (.run (.arithmetic f)) => some f
  | _ => none

attribute [local instance] Memory.sixteenGigabytes in
/-- The text of huge notes is a score that is neither rendered nor formatted. -/
theorem not_answered_iff_numbers_hugeNotes :
  (∃ cs, Score.read hugeNotes = .ok cs) ∧ ¬RenderAnswers hugeNotes ∧
    ¬∃ t', Layout.format hugeNotes = .ok t'
  := by
  have hread : (Score.read hugeNotes).isOk := by decide +kernel
  have hrender : renderFault? hugeNotes = some .undefined := by decide +kernel
  have hformat : Layout.format hugeNotes = .error .infinite := by decide +kernel
  refine ⟨?_, ?_, ?_⟩
  · apply Score.exists_of_isOk hread
  · rintro (⟨p, hp⟩ | ⟨e, he⟩ | ⟨e, he⟩)
    · rw [renderFault?, hp] at hrender
      cases hrender
    · rw [renderFault?, he] at hrender
      cases hrender
    · rw [renderFault?, he] at hrender
      cases hrender
  · rintro ⟨t', ht'⟩
    rw [hformat] at ht'
    cases ht'

end Tunescript
