import Mathlib.Tactic.Common
import Tunescript.Pitch.Frequency

/-!
# Keys of the notes

The notes of the scale lie on consecutive keys of an instrument: the one that is `n` semitones above
the lowest is nearest to the key `n + 12` (`nearestKey_of_frequency?`).
-/

namespace Tunescript.Pitch

/-- The key of a note that is so many semitones above the lowest. -/
theorem nearestKey_semitones {n : Nat} (hn : n < 96) :
  nearestKey (concertPitch * semitonePower (n - anchor)) = .ok (n + 12)
  := by
  have hall : ∀ n : Fin 96,
      nearestKey (concertPitch * semitonePower ((n : Nat) - anchor)) = .ok ((n : Nat) + 12) := by
    decide +kernel
  apply hall ⟨n, hn⟩

/-- The frequencies of a spelling are those of the semitones above the lowest note, and the
undefined one. -/
theorem exists_semitones_of_mem {s : Spelling} {entry : Text × Float} (h : entry ∈ frequencies s) :
  (∃ n : Nat, n < 96 ∧ entry.2 = concertPitch * semitonePower (n - anchor)) ∨
    entry = (rest, 0.0 / 0.0)
  := by
  rw [frequencies, List.mem_append, List.mem_singleton] at h
  apply h.imp_left
  intro h
  obtain ⟨octave, hoctave, h⟩ := List.mem_flatMap.mp h
  obtain ⟨⟨pitch, index⟩, hindex, rfl⟩ := List.mem_map.mp h
  obtain ⟨k, hk, rfl⟩ := List.mem_map.mp hoctave
  have hk : k < 8 := List.mem_range.mp hk
  have hindex : index < 12 := by
    obtain ⟨hlt, -⟩ := List.getElem?_eq_some_iff.mp (List.mem_zipIdx_iff_getElem?.mp hindex)
    rw [s.length_classes] at hlt
    apply hlt
  use k * 12 + index, by omega
  have hsemitones : (↑k + lowestOctave) * (semitones : Int) + (index : Int) =
      ((k * 12 + index : Nat) : Int) := by
    simp [lowestOctave, semitones]
  dsimp only
  rw [hsemitones]

/-- A note that is no rest has one of the keys from 12 to 107. -/
theorem nearestKey_of_frequency? {name : Text} {frequency : Float}
    (h : frequency? name = some frequency) (hrest : frequency.isNaN = false) :
  ∃ key, nearestKey frequency = .ok key ∧ 12 ≤ key ∧ key ≤ 107
  := by
  have hmem : ∃ s, (name, frequency) ∈ frequencies s := by
    obtain ⟨us, vs, hsplit, -⟩ := List.lookup_eq_some_iff.mp h
    have hmem : (name, frequency) ∈ standardFrequencies := by
      rw [hsplit]
      simp
    obtain hmem | hmem := List.mem_append.mp hmem
    · exact ⟨.sharps, hmem⟩
    · exact ⟨.flats, (List.mem_filter.mp hmem).1⟩
  obtain ⟨s, hmem⟩ := hmem
  obtain ⟨n, hn, hfrequency⟩ | hnan := exists_semitones_of_mem hmem
  · obtain rfl : frequency = _ := hfrequency
    refine ⟨n + 12, nearestKey_semitones hn, by omega, by omega⟩
  · cases hnan
    cases hrest

end Tunescript.Pitch
