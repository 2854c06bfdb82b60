import Tunescript.Pitch.Spelling
import Tunescript.Proofs.Text.Pieces
import Tunescript.Score.Reader

/-!
# Names of notes

The name of a note of the scale is four characters long (`length_name`), letters and a digit with a
separator between them (`isNameChar_of_mem_name`), and is split again into the pitch class and the
octave that it names (`split?_name`).
-/

namespace Tunescript

namespace Spelling

/-- A pitch class is a letter and what raises or lowers it. -/
theorem letters_of_mem_classes {s : Spelling} {pitch : Text} (h : pitch ∈ s.classes) :
  pitch.length = 2 ∧ ∀ c ∈ pitch, c.isAlphanum
  := by
  have hall : ∀ pitch ∈ s.classes, pitch.length = 2 ∧ pitch.all Char.isAlphanum := by
    cases s
    · decide
    · decide
  obtain ⟨hlength, hletters⟩ := hall pitch h
  use hlength, List.all_eq_true.mp hletters

end Spelling

namespace Pitch

variable {s : Spelling} {pitch : Text} {octave : Int}

/-- The octaves of the scale are written with one digit. -/
theorem exists_digit_of_octave (h : 0 ≤ octave ∧ octave ≤ 7) :
  ∃ d : Char, Text.ofInt octave = [d] ∧ d.isDigit ∧ Numeral.readWhole? [d] = some octave
  := by
  have hall : ∀ n : Fin 8,
      Text.ofInt (n : Nat) = [Char.ofNat (48 + n)] ∧ (Char.ofNat (48 + n)).isDigit ∧
      Numeral.readWhole? [Char.ofNat (48 + n)] = some ((n : Nat) : Int) := by
    decide +kernel
  obtain ⟨n, rfl⟩ := Int.eq_ofNat_of_zero_le h.1
  have hlt : n < 8 := by omega
  exact ⟨Char.ofNat (48 + n), hall ⟨n, hlt⟩⟩

theorem length_name (hpitch : pitch ∈ s.classes) (hoctave : 0 ≤ octave ∧ octave ≤ 7) :
  (name pitch octave).length = 4
  := by
  obtain ⟨hlength, -⟩ := Spelling.letters_of_mem_classes hpitch
  obtain ⟨d, hd, -⟩ := exists_digit_of_octave hoctave
  rw [name, hd, List.length_append, hlength]
  rfl

theorem isNameChar_of_mem_name (hpitch : pitch ∈ s.classes) (hoctave : 0 ≤ octave ∧ octave ≤ 7) :
  ∀ c ∈ name pitch octave, Score.isNameChar c
  := by
  obtain ⟨-, hletters⟩ := Spelling.letters_of_mem_classes hpitch
  obtain ⟨d, hd, hdigit, -⟩ := exists_digit_of_octave hoctave
  intro c hc
  rw [name, hd, List.mem_append] at hc
  obtain hc | hc := hc
  · simp [Score.isNameChar, hletters c hc]
  · obtain rfl | hc := List.mem_cons.mp hc
    · rfl
    · obtain rfl := List.mem_singleton.mp hc
      simp [Score.isNameChar, Char.isAlphanum, hdigit]

/-- The name of a note is read as that note. -/
theorem split?_name (hpitch : pitch ∈ s.classes) (hoctave : 0 ≤ octave ∧ octave ≤ 7) :
  split? (name pitch octave) = some (pitch, octave)
  := by
  obtain ⟨-, hletters⟩ := Spelling.letters_of_mem_classes hpitch
  obtain ⟨d, hd, hdigit, hread⟩ := exists_digit_of_octave hoctave
  have hpitch : separator ∉ pitch := by
    intro hmem
    cases hletters separator hmem
  have hdigit : separator ∉ [d] := by
    intro hmem
    rw [← List.mem_singleton.mp hmem] at hdigit
    cases hdigit
  rw [split?, name, hd, Text.pieces_append, Text.pieces_of_not_mem hpitch,
    Text.pieces_of_not_mem hdigit]
  dsimp only [List.singleton_append]
  rw [hread]
  rfl

end Pitch

end Tunescript
