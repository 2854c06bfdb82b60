import Tunescript.Number.Fault

/-!
# Capacity

Texts and rows of samples are held in memory, which is limited; how much it holds is given
from outside.  What would be longer than memory holds is a fault before it is made, and the
fault tells whether its length could be counted at all.
-/

namespace Tunescript

/-- The largest number that counts things or bytes. -/
def Capacity.countLimit : Nat := Nat.pow 2 63 - 1

/-- The memory that holds texts and samples. -/
class Memory where
  /-- The number of bytes that it holds. -/
  size : Nat
  /-- There is some of it. -/
  size_pos : 0 < size
  /-- The bytes can be counted. -/
  size_lt : size < Capacity.countLimit

/-- A memory of sixteen gigabytes. -/
@[reducible]
def Memory.sixteenGigabytes : Memory := ⟨Nat.pow 2 34, by decide, by decide⟩

namespace Capacity

variable [Memory]

/-- The number of bytes of a sample. -/
def sampleSize : Nat := 8

/-- The given number of characters, none if it is negative, if there can be a text of so many. -/
def ofText (count : Int) : Except ArithmeticFault Nat :=
  if (countLimit : Int) < count ∨ count + 1 < -(countLimit : Int) then .error .textUncountable
  else if (Memory.size : Int) ≤ count then .error .textTooLong
  else .ok count.toNat

/-- The parts of a text joined, if there is room for them. -/
def join (parts : List (List Char)) : Except ArithmeticFault (List Char) :=
  if parts.flatten.length < Memory.size then .ok parts.flatten else .error .textTooLong

/-- The given number of samples, if there is room for them. -/
def ofSamples (count : Nat) : Except ArithmeticFault Nat :=
  if countLimit < sampleSize * count then .error .samplesUncountable
  else if Memory.size ≤ sampleSize * count then .error (.samplesTooMany count)
  else .ok count

/-- The given length of a sound, if there is room for it. -/
def ofSound (count : Nat) : Except ArithmeticFault Nat :=
  if countLimit < count then .error .soundUncountable else ofSamples count

/-- The given length of a track, if there is room for it. -/
def ofTrack (count : Nat) : Except ArithmeticFault Nat :=
  if countLimit < count then .error .trackUncountable else ofSamples count

theorem eq_of_ofText {m : Int} {n : Nat} (h : ofText m = .ok n) :
  n = m.toNat
  := by
  unfold ofText at h
  split at h
  · cases h
  · split at h
    · cases h
    · exact (Except.ok.inj h).symm

/-- There can be a text of so many characters exactly if it fits into memory. -/
theorem exists_ofText_iff (n : Nat) :
  (∃ m, ofText n = .ok m) ↔ n < Memory.size
  := by
  have hmemory := Memory.size_lt
  rw [ofText]
  split
  · have hn : ¬n < Memory.size := by omega
    simp [hn]
  · split
    · have hn : ¬n < Memory.size := by omega
      simp [hn]
    · have hn : n < Memory.size := by omega
      simp [hn]

/-- A text is joined from parts if they fit into memory together. -/
theorem join_eq_ok_iff {parts : List (List Char)} {t : List Char} :
  join parts = .ok t ↔ parts.flatten = t ∧ t.length < Memory.size
  := by
  rw [join]
  split
  · rename_i hfits
    rw [Except.ok.injEq, iff_self_and]
    rintro rfl
    exact hfits
  · rename_i hfull
    apply iff_of_false nofun
    rintro ⟨rfl, hfits⟩
    exact hfull hfits

theorem eq_of_ofSamples {m n : Nat} (h : ofSamples m = .ok n) :
  m = n
  := by
  unfold ofSamples at h
  split at h
  · cases h
  · split at h
    · cases h
    · exact Except.ok.inj h

/-- A sound keeps its length. -/
theorem eq_of_ofSound {m n : Nat} (h : ofSound m = .ok n) :
  m = n
  := by
  unfold ofSound at h
  split at h
  · cases h
  · exact eq_of_ofSamples h

/-- A track keeps its length. -/
theorem eq_of_ofTrack {m n : Nat} (h : ofTrack m = .ok n) :
  m = n
  := by
  unfold ofTrack at h
  split at h
  · cases h
  · exact eq_of_ofSamples h

end Capacity

end Tunescript
