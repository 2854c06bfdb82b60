import Mathlib.Tactic.Common
import Tunescript.Pitch.Spelling

/-!
# Transpositions are shifts

The notes of a spelling are counted by the semitones from the lowest C upwards: `Spelling.note` is
the note of a number, and `Pitch.height?` the number of a note.  Every note of a spelling has its
number (`height?_note`), also if it is a natural, which belongs to the other spelling as well.  A
transposition adds to the number and yields the note of the sum, unless that lies outside the scale
(`transpose_eq_ok_iff`), so that transpositions add up but for the spelling of the notes on the way
(`transpose_shifts`).
-/

namespace Tunescript

namespace Spelling

variable {s : Spelling} {pitch : Text}

theorem nodup_classes (s : Spelling) :
  s.classes.Nodup
  := by
  cases s
  · decide
  · decide

/-- A pitch class of both spellings, a natural, has the same place in both. -/
theorem idxOf_sharps_of_mem_flats (hsharp : pitch ∈ sharps.classes)
    (hflat : pitch ∈ flats.classes) :
  sharps.classes.idxOf pitch = flats.classes.idxOf pitch
  := by
  have hshared : ∀ pitch ∈ flats.classes, pitch ∈ sharps.classes →
      sharps.classes.idxOf pitch = flats.classes.idxOf pitch := by
    decide
  apply hshared pitch hflat hsharp

theorem of?_eq_some_iff :
  of? pitch = some s ↔ pitch ∈ s.classes ∧ (s = sharps ↔ pitch ∈ sharps.classes)
  := by
  rw [of?]
  by_cases hsharp : pitch ∈ sharps.classes
  · cases s
    · simp [hsharp]
    · simp [hsharp]
  · by_cases hflat : pitch ∈ flats.classes
    · cases s
      · simp [hsharp, hflat]
      · simp [hsharp, hflat]
    · cases s
      · simp [hsharp, hflat]
      · simp [hsharp, hflat]

/-- A pitch class of a spelling belongs to a spelling. -/
theorem exists_of?_eq_some (h : pitch ∈ s.classes) :
  ∃ s', of? pitch = some s'
  := by
  by_cases hsharp : pitch ∈ sharps.classes
  · use sharps
    apply of?_eq_some_iff.mpr
    simp [hsharp]
  · cases s with
    | sharps => cases hsharp h
    | flats =>
      use flats
      apply of?_eq_some_iff.mpr
      simp [hsharp, h]

/-- The spelling that a pitch class belongs to has it at the place that it has in any spelling. -/
theorem idxOf_of_of?_eq_some {s' : Spelling} (hs' : of? pitch = some s') (h : pitch ∈ s.classes) :
  s'.classes.idxOf pitch = s.classes.idxOf pitch
  := by
  obtain ⟨hmem, -⟩ := of?_eq_some_iff.mp hs'
  cases s' with
  | sharps =>
    cases s with
    | sharps => rfl
    | flats => apply idxOf_sharps_of_mem_flats hmem h
  | flats =>
    cases s with
    | sharps =>
      symm
      apply idxOf_sharps_of_mem_flats h hmem
    | flats => rfl

/-- The pitch class and the octave of the note that lies so many semitones above the lowest C. -/
def note (s : Spelling) (n : Int) : Text × Int := (s.classes.getD (n % 12).toNat [], n / 12)

/-- The pitch class of a note stands in the spelling at the remainder of its number. -/
theorem getElem?_note (s : Spelling) (n : Int) :
  s.classes[(n % 12).toNat]? = some (s.note n).1
  := by
  have hlt : (n % 12).toNat < s.classes.length := by
    rw [length_classes]
    omega
  rw [note, List.getD_eq_getElem?_getD, List.getElem?_eq_getElem hlt]
  rfl

theorem idxOf_note (s : Spelling) (n : Int) :
  s.classes.idxOf (s.note n).1 = (n % 12).toNat
  := by
  obtain ⟨hlt, hnote⟩ := List.getElem?_eq_some_iff.mp (s.getElem?_note n)
  rw [← hnote]
  apply s.nodup_classes.idxOf_getElem

theorem note_mem_classes (s : Spelling) (n : Int) :
  (s.note n).1 ∈ s.classes
  := List.mem_of_getElem? (s.getElem?_note n)

/-- The pitch class of a note belongs to a spelling, that of a note spelled with sharps to the same
one. -/
theorem exists_of?_note (s : Spelling) (n : Int) :
  ∃ s', of? (s.note n).1 = some s' ∧ (s = sharps → s' = sharps)
  := by
  have hmem := s.note_mem_classes n
  obtain ⟨s', hs'⟩ := exists_of?_eq_some hmem
  use s', hs'
  rintro rfl
  apply (of?_eq_some_iff.mp hs').2.mpr hmem

end Spelling

namespace Pitch

variable {s : Spelling} {pitch : Text} {octave : Int} {n : Int}

/-- The number of semitones from the lowest C up to a note, if its pitch class belongs to a
spelling. -/
def height? (pitch : Text) (octave : Int) : Option Int :=
  (Spelling.of? pitch).map fun s => 12 * octave + s.classes.idxOf pitch

theorem height?_eq (hs : Spelling.of? pitch = some s) (octave : Int) :
  height? pitch octave = some (12 * octave + s.classes.idxOf pitch)
  := by
  rw [height?, hs]
  rfl

/-- A note has the height that it is the note of, in whichever spelling. -/
theorem height?_note (s : Spelling) (n : Int) :
  height? (s.note n).1 (s.note n).2 = some n
  := by
  obtain ⟨s', hs', -⟩ := s.exists_of?_note n
  rw [height?_eq hs', Spelling.idxOf_of_of?_eq_some hs' (s.note_mem_classes n), s.idxOf_note,
    Spelling.note]
  apply congrArg some
  omega

/-- The note of a height is the one with that height, in the spelling that its pitch class belongs
to. -/
theorem note_of_height? (hs : Spelling.of? pitch = some s) (hn : height? pitch octave = some n) :
  s.note n = (pitch, octave)
  := by
  obtain ⟨hmem, -⟩ := Spelling.of?_eq_some_iff.mp hs
  have hplace := List.idxOf_lt_length_of_mem hmem
  have hlt : s.classes.idxOf pitch < 12 := by
    rw [← s.length_classes]
    apply hplace
  rw [height?_eq hs] at hn
  obtain rfl := Option.some.inj hn
  have hmod : ((12 * octave + s.classes.idxOf pitch) % 12).toNat = s.classes.idxOf pitch := by
    omega
  have hdiv : (12 * octave + s.classes.idxOf pitch) / 12 = octave := by
    omega
  rw [Spelling.note, hmod, hdiv, List.getD_eq_getElem?_getD, List.getElem?_eq_getElem hplace,
    List.getElem_idxOf hplace]
  rfl

/-- A transposition yields the note of the sum, if there is such a note in the scale. -/
theorem transpose_eq_ok_iff (hs : Spelling.of? pitch = some s) (hn : height? pitch octave = some n)
    (delta : Int) (r : Text × Int) :
  transpose pitch octave delta = .ok r ↔ (0 ≤ n + delta ∧ n + delta ≤ 95) ∧ r = s.note (n + delta)
  := by
  rw [height?_eq hs] at hn
  obtain hn := Option.some.inj hn
  have hindex : octave * semitones + s.classes.idxOf pitch + delta = n + delta := by
    rw [← hn, semitones]
    omega
  rw [transpose, hs]
  dsimp only
  rw [hindex, semitones, lowestOctave, highestOctave]
  split
  · constructor
    · rintro ⟨⟩
    · rintro ⟨hrange, -⟩
      omega
  · split
    · constructor
      · rintro ⟨⟩
      · rintro ⟨hrange, -⟩
        omega
    · constructor
      · rintro ⟨⟩
        constructor
        · omega
        · rfl
      · rintro ⟨-, rfl⟩
        rfl

/-- A transposition is refused exactly if it would leave the scale. -/
theorem exists_transpose_eq_error_iff (hs : Spelling.of? pitch = some s)
    (hn : height? pitch octave = some n) (delta : Int) :
  (∃ e, transpose pitch octave delta = .error e) ↔ ¬(0 ≤ n + delta ∧ n + delta ≤ 95)
  := by
  have hok := transpose_eq_ok_iff hs hn delta
  cases hresult : transpose pitch octave delta with
  | ok r =>
    obtain ⟨hrange, -⟩ := (hok r).mp hresult
    simp [hrange]
  | error e =>
    constructor
    · intro _ hrange
      rw [(hok _).mpr ⟨hrange, rfl⟩] at hresult
      cases hresult
    · intro _
      use e

/-- What a note is transposed to is a note of the scale, in the spelling of its pitch class. -/
theorem scale_of_transpose {q : Text} {o delta : Int}
    (h : transpose pitch octave delta = .ok (q, o)) :
  ∃ s, Spelling.of? pitch = some s ∧ q ∈ s.classes ∧ 0 ≤ o ∧ o ≤ 7
  := by
  cases hs : Spelling.of? pitch with
  | none =>
    rw [transpose, hs] at h
    cases h
  | some s =>
    obtain ⟨hrange, hq⟩ := (transpose_eq_ok_iff hs (height?_eq hs octave) delta _).mp h
    obtain ⟨rfl, rfl⟩ := Prod.mk.inj hq
    use s, rfl, s.note_mem_classes _
    omega

/-- Two transpositions one after the other come to the height of their sum, and to the same note if
it is spelled with sharps. -/
theorem transpose_add (hs : Spelling.of? pitch = some s) (hn : height? pitch octave = some n)
    {a b : Int} {q r : Text} {o o' : Int} (hfirst : transpose pitch octave a = .ok (q, o))
    (hsecond : transpose q o b = .ok (r, o')) :
  ∃ r', transpose pitch octave (a + b) = .ok (r', o') ∧ height? r o' = some (n + a + b) ∧
    height? r' o' = some (n + a + b) ∧ (s = .sharps → r' = r)
  := by
  obtain ⟨-, hq⟩ := (transpose_eq_ok_iff hs hn a _).mp hfirst
  obtain ⟨s', hs', hsame⟩ := s.exists_of?_note (n + a)
  have hheight := height?_note s (n + a)
  rw [← hq] at hs' hheight
  obtain ⟨hrange, hr⟩ := (transpose_eq_ok_iff hs' hheight b _).mp hsecond
  have hoctave : o' = (n + (a + b)) / 12 := by
    rw [← Int.add_assoc]
    apply congrArg Prod.snd hr
  rw [Int.add_assoc] at hrange hr ⊢
  use (s.note (n + (a + b))).1
  refine ⟨?_, ?_, ?_, ?_⟩
  · apply (transpose_eq_ok_iff hs hn (a + b) _).mpr
    use hrange
    rw [hoctave]
    rfl
  · have hsum := height?_note s' (n + (a + b))
    rw [← hr] at hsum
    apply hsum
  · rw [hoctave]
    apply height?_note s (n + (a + b))
  · intro hsharps
    rw [hsame hsharps, ← hsharps] at hr
    symm
    apply congrArg Prod.fst hr

/-- A transposition there and back comes to the same height, exactly if that lies in the scale. -/
theorem transpose_neg (hs : Spelling.of? pitch = some s) (hn : height? pitch octave = some n)
    {a : Int} {q : Text} {o : Int} (hfirst : transpose pitch octave a = .ok (q, o)) :
  (0 ≤ octave ∧ octave ≤ 7 → ∃ r, transpose q o (-a) = .ok (r, octave) ∧
    height? r octave = some n ∧ (s = .sharps → r = pitch)) ∧
  (¬(0 ≤ octave ∧ octave ≤ 7) → ∃ e, transpose q o (-a) = .error e)
  := by
  obtain ⟨-, hq⟩ := (transpose_eq_ok_iff hs hn a _).mp hfirst
  obtain ⟨s', hs', hsame⟩ := s.exists_of?_note (n + a)
  have hheight := height?_note s (n + a)
  rw [← hq] at hs' hheight
  have hnote := note_of_height? hs hn
  have hoctave : n / 12 = octave := congrArg Prod.snd hnote
  constructor
  · intro hscale
    use (s'.note n).1
    refine ⟨?_, ?_, ?_⟩
    · apply (transpose_eq_ok_iff hs' hheight (-a) _).mpr
      rw [Int.add_neg_cancel_right, ← hoctave]
      constructor
      · omega
      · rfl
    · rw [← hoctave]
      apply height?_note s' n
    · intro hsharps
      rw [hsame hsharps, ← hsharps, hnote]
  · intro hscale
    apply (exists_transpose_eq_error_iff hs' hheight (-a)).mpr
    rw [Int.add_neg_cancel_right]
    omega

/-- Transposing shifts the semitones.  A pitch class of either spelling, in whatever octave, can be
transposed exactly to the heights of the scale, and becomes the note there in its own spelling.
Transpositions one after the other come to the height that their sum comes to; they agree with it in
the spelling too if the pitch class is among the sharps, so that a transposition there and back
restores a note of the scale, or else yields an enharmonic equal of it. -/
theorem transpose_shifts (h : pitch ∈ Spelling.sharps.classes ∨ pitch ∈ Spelling.flats.classes)
    (octave : Int) :
  ∃ (s : Spelling) (n : Int),
    pitch ∈ s.classes ∧ (s = .sharps ↔ pitch ∈ Spelling.sharps.classes) ∧
    n = 12 * octave + s.classes.idxOf pitch ∧ height? pitch octave = some n ∧
    (∀ a, (∃ e, transpose pitch octave a = .error e) ↔ ¬(0 ≤ n + a ∧ n + a ≤ 95)) ∧
    (∀ a, 0 ≤ n + a ∧ n + a ≤ 95 → ∃ q, s.classes[((n + a) % 12).toNat]? = some q ∧
      transpose pitch octave a = .ok (q, (n + a) / 12)) ∧
    (∀ a b q o r o', transpose pitch octave a = .ok (q, o) → transpose q o b = .ok (r, o') →
      ∃ r', transpose pitch octave (a + b) = .ok (r', o') ∧ height? r o' = some (n + a + b) ∧
        height? r' o' = some (n + a + b) ∧ (s = .sharps → r' = r)) ∧
    (∀ a q o, transpose pitch octave a = .ok (q, o) →
      (0 ≤ octave ∧ octave ≤ 7 → ∃ r, transpose q o (-a) = .ok (r, octave) ∧
        height? r octave = some n ∧ (s = .sharps → r = pitch)) ∧
      (¬(0 ≤ octave ∧ octave ≤ 7) → ∃ e, transpose q o (-a) = .error e))
  := by
  have hspelled : ∃ s, Spelling.of? pitch = some s := by
    obtain hsharp | hflat := h
    · apply Spelling.exists_of?_eq_some hsharp
    · apply Spelling.exists_of?_eq_some hflat
  obtain ⟨s, hs⟩ := hspelled
  obtain ⟨hmem, hsharps⟩ := Spelling.of?_eq_some_iff.mp hs
  have hn := height?_eq hs octave
  use s, 12 * octave + s.classes.idxOf pitch, hmem, hsharps, rfl, hn
  generalize 12 * octave + (s.classes.idxOf pitch : Int) = n at hn ⊢
  refine ⟨exists_transpose_eq_error_iff hs hn, ?_, ?_, ?_⟩
  · intro a hrange
    use (s.note (n + a)).1, s.getElem?_note (n + a)
    apply (transpose_eq_ok_iff hs hn a _).mpr ⟨hrange, rfl⟩
  · intro a b q o r o'
    apply transpose_add hs hn
  · intro a q o
    apply transpose_neg hs hn

/-- A flat that is lowered to a natural and raised again comes back as the sharp of the same
height. -/
theorem transpose_shifts_dFlat :
  transpose "Df".toList 4 (-1) = .ok ("Cn".toList, 4) ∧
    ∃ r, transpose "Cn".toList 4 1 = .ok (r, 4) ∧ height? r 4 = height? "Df".toList 4 ∧
      r ≠ "Df".toList
  := by
  have hlowered : transpose "Df".toList 4 (-1) = .ok ("Cn".toList, 4) := by
    decide
  have hflat : "Df".toList ∈ Spelling.sharps.classes ∨ "Df".toList ∈ Spelling.flats.classes := by
    apply Or.inr
    decide
  obtain ⟨s, n, -, -, -, hn, -, -, -, hback⟩ := transpose_shifts hflat 4
  obtain ⟨r, hr, hheight, -⟩ := (hback (-1) _ _ hlowered).1 (by decide)
  have hraised : transpose "Cn".toList 4 1 = .ok ("Cs".toList, 4) := by
    decide
  rw [Int.neg_neg] at hr
  refine ⟨hlowered, r, hr, hheight.trans hn.symm, ?_⟩
  rw [hraised] at hr
  cases hr
  decide

end Pitch

end Tunescript
