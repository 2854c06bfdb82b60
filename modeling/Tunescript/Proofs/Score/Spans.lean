import Tunescript.Proofs.Text.Search
import Tunescript.Score.Address

/-!
# Spans lie in the text

The note, the word and the pitch that are found at a cursor are ranges of the text.
-/

namespace Tunescript

/-- The span is a range of the text. -/
structure Span.Within (span : Span) (t : Text) : Prop where
  /-- It does not end before it starts. -/
  start_le : span.start ≤ span.stop
  /-- It ends in the text. -/
  stop_le : span.stop ≤ t.length

namespace Score

theorem noteFrom?_within {t : Text} {start : Nat} {span : Span}
    (h : noteFrom? t start = some span) :
  span.Within t
  := by
  rw [noteFrom?] at h
  split at h
  · cases h
  · rename_i k hk
    cases h
    have hlt := Text.indexOf?_lt hk
    rw [List.length_take, List.length_drop] at hlt
    have hdots := (List.takeWhile_prefix (· == '+') (l := t.drop (start + k + 1))).length_le
    rw [List.length_drop] at hdots
    constructor
    · dsimp only
      omega
    · dsimp only
      omega

theorem noteAt?_within {t : Text} {cursor : Int} {span : Span} (h : noteAt? t cursor = some span) :
  span.Within t
  := by
  rw [noteAt?] at h
  split at h
  · dsimp only at h
    split at h
    · cases h
    · apply noteFrom?_within (Option.filter_eq_some_iff.mp h).1
  · cases h

theorem wordAt?_within {t : Text} {cursor : Int} {span : Span} (h : wordAt? t cursor = some span) :
  span.Within t
  := by
  rw [wordAt?] at h
  split at h
  · dsimp only at h
    split at h
    · cases h
    · cases h
      have hafter := (List.takeWhile_prefix isWordChar (l := t.drop cursor.toNat)).length_le
      rw [List.length_drop] at hafter
      constructor
      · dsimp only
        omega
      · dsimp only
        omega
  · cases h

theorem pitchAt?_within {t : Text} {cursor : Int} {span : Span}
    (h : pitchAt? t cursor = some span) :
  span.Within t
  := by
  rw [pitchAt?] at h
  split at h
  · cases h
  · rename_i note hnote
    obtain ⟨k, hk, rfl⟩ := Option.map_eq_some_iff.mp h
    have hlt := Text.indexOf?_lt hk
    rw [List.length_drop, List.length_take] at hlt
    constructor
    · dsimp only
      omega
    · dsimp only
      omega

end Score

end Tunescript
