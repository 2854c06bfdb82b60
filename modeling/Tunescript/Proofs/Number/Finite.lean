import Tunescript.Number.Capacity
import Tunescript.Number.Scalar

/-!
# Finite quantities

A double is rounded to an integer exactly if it is a number (`exists_truncate_iff`,
`exists_ceiling_iff`), and there is room for samples exactly if they fit into memory
(`exists_ofSound_iff`, `exists_ofTrack_iff`).
-/

namespace Tunescript

namespace Binary64

/-- The double is a number, neither infinite nor undefined. -/
def IsNumber (x : Float) : Prop := ∃ m e, decode x = .finite m e

instance (x : Float) : Decidable (IsNumber x) :=
  match h : decode x with
  | .finite m e => isTrue ⟨m, e, h⟩
  | .infinite _ => isFalse fun ⟨_, _, hnumber⟩ => nomatch h.symm.trans hnumber
  | .undefined => isFalse fun ⟨_, _, hnumber⟩ => nomatch h.symm.trans hnumber

variable {x : Float}

theorem exists_toIntWith_iff (rounding : Int → Nat → Int) :
  (∃ n, toIntWith rounding x = .ok n) ↔ IsNumber x
  := by
  rw [toIntWith, IsNumber]
  cases decode x with
  | finite m e => simp
  | infinite negative => simp
  | undefined => simp

/-- A double has an integer part exactly if it is a number. -/
theorem exists_truncate_iff :
  (∃ n, Scalar.truncate x = .ok n) ↔ IsNumber x
  := exists_toIntWith_iff fun n d => n.tdiv d

/-- A double is rounded up exactly if it is a number. -/
theorem exists_ceiling_iff :
  (∃ n, Scalar.ceiling x = .ok n) ↔ IsNumber x
  := exists_toIntWith_iff fun n d => -((-n).fdiv d)

end Binary64

namespace Capacity

variable [Memory]

theorem exists_ofSamples_iff (n : Nat) :
  (∃ m, ofSamples n = .ok m) ↔ sampleSize * n < Memory.size
  := by
  have hmemory := Memory.size_lt
  rw [ofSamples]
  split
  · have hn : ¬sampleSize * n < Memory.size := by omega
    simp [hn]
  · split
    · have hn : ¬sampleSize * n < Memory.size := by omega
      simp [hn]
    · have hn : sampleSize * n < Memory.size := by omega
      simp [hn]

theorem not_countLimit_lt {n : Nat} (h : sampleSize * n < Memory.size) :
  ¬countLimit < n
  := by
  have hmemory := Memory.size_lt
  rw [sampleSize] at h
  omega

/-- There can be a sound of so many samples exactly if they fit into memory. -/
theorem exists_ofSound_iff (n : Nat) :
  (∃ m, ofSound n = .ok m) ↔ sampleSize * n < Memory.size
  := by
  rw [ofSound, ← exists_ofSamples_iff]
  split
  · rename_i hn
    have hmemory : ¬sampleSize * n < Memory.size := fun h => not_countLimit_lt h hn
    simp [exists_ofSamples_iff, hmemory]
  · rfl

/-- There can be a track of so many samples exactly if they fit into memory. -/
theorem exists_ofTrack_iff (n : Nat) :
  (∃ m, ofTrack n = .ok m) ↔ sampleSize * n < Memory.size
  := by
  rw [ofTrack, ← exists_ofSamples_iff]
  split
  · rename_i hn
    have hmemory : ¬sampleSize * n < Memory.size := fun h => not_countLimit_lt h hn
    simp [exists_ofSamples_iff, hmemory]
  · rfl

end Capacity

end Tunescript
