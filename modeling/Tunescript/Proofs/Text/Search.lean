import Mathlib.Tactic.Common
import Tunescript.Text.Index

/-!
# Searching for a character

The position that a search finds is that of the first occurrence (`indexOf?_append`,
`indexOf?_take_eq_some_iff`), or of the last one if it looks from the end
(`lastIndexBefore?_lt`).
-/

namespace Tunescript.Text

/-- A search from behind a text is one in what follows. -/
theorem indexFrom?_append (c : Char) (u t : Text) :
  indexFrom? c (u ++ t) u.length = (indexOf? c t).map (u.length + ·)
  := by
  have hu : u.length ≤ (u ++ t).length := by simp
  rw [indexFrom?, bound_eq_of_le hu, List.drop_left]

theorem lastIndexOf?_lt {c : Char} {t : Text} {i : Nat} (h : lastIndexOf? c t = some i) :
  i < t.length
  := by
  obtain ⟨k, hk, rfl⟩ := Option.map_eq_some_iff.mp h
  have hlt := (List.findIdx?_eq_some_iff_getElem.mp hk).1
  rw [List.length_reverse] at hlt
  omega

theorem lastIndexBefore?_lt {c : Char} {t : Text} {stop : Int} {i : Nat}
    (h : lastIndexBefore? c t stop = some i) :
  i < t.length
  := by
  have hlt := lastIndexOf?_lt h
  rw [List.length_take] at hlt
  omega

theorem indexOf?_eq_none {c : Char} {t : Text} (h : c ∉ t) :
  indexOf? c t = none
  := by
  rw [indexOf?, List.findIdx?_eq_none_iff]
  intro d hd
  apply beq_eq_false_iff_ne.mpr
  rintro rfl
  apply h hd

theorem indexOf?_append {c : Char} {u : Text} (hu : c ∉ u) (v : Text) :
  indexOf? c (u ++ c :: v) = some u.length
  := by
  rw [indexOf?, List.findIdx?_append, ← indexOf?, indexOf?_eq_none hu, List.findIdx?_cons]
  simp

/-- The first occurrence among the first characters of a text. -/
theorem indexOf?_take_eq_some_iff {c : Char} {u : Text} {limit k : Nat} :
  indexOf? c (u.take limit) = some k ↔ k < limit ∧ u[k]? = some c ∧ ∀ j < k, u[j]? ≠ some c
  := by
  rw [indexOf?, List.findIdx?_eq_some_iff_getElem]
  simp only [List.length_take, List.getElem_take, beq_iff_eq, Nat.lt_min]
  constructor
  · rintro ⟨⟨hlimit, hk⟩, hc, hfirst⟩
    refine ⟨hlimit, List.getElem?_eq_some_iff.mpr ⟨hk, hc⟩, ?_⟩
    intro j hj hj'
    obtain ⟨_, hc'⟩ := List.getElem?_eq_some_iff.mp hj'
    apply hfirst j hj hc'
  · rintro ⟨hlimit, hc, hfirst⟩
    obtain ⟨hk, hc⟩ := List.getElem?_eq_some_iff.mp hc
    refine ⟨⟨hlimit, hk⟩, hc, ?_⟩
    intro j hj hj'
    apply hfirst j hj (List.getElem?_eq_some_iff.mpr ⟨by omega, hj'⟩)

end Tunescript.Text
