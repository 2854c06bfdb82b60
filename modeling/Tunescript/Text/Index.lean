import Tunescript.Text.Basic

/-!
# Signed positions

A position in a text may be given as a negative number, which counts back from the end.  A
single position has to lie in the text; the bounds of a slice are moved to the nearest end
when they do not.  A search for a character from a position on finds a position behind it and
within the text (`le_indexFrom?`, `indexFrom?_lt`).
-/

namespace Tunescript.Text

/-- The position that a signed number names among `length` places, if there is one. -/
def place? (length : Nat) (i : Int) : Option Nat :=
  let j := if i < 0 then i + length else i
  if 0 ≤ j ∧ j < length then some j.toNat else none

/-- The bound of a slice that a signed number names in a text of the given length. -/
def bound (length : Nat) (i : Int) : Nat :=
  let j := if i < 0 then i + length else i
  min j.toNat length

/-- The characters between two signed bounds; without a second bound, to the end. -/
def slice (t : Text) (start : Int) (stop : Option Int) : Text :=
  let a := bound t.length start
  let b := match stop with
    | none => t.length
    | some e => bound t.length e
  (t.take b).drop a

/-- The number of line ends before a signed bound. -/
def lineEndsBefore (t : Text) (stop : Int) : Nat :=
  (t.take (bound t.length stop)).count '\n'

/-- The position of the first occurrence of a character at or after a signed bound. -/
def indexFrom? (c : Char) (t : Text) (start : Int) : Option Nat :=
  let a := bound t.length start
  (indexOf? c (t.drop a)).map (a + ·)

/-- The position of the last occurrence of a character before a signed bound. -/
def lastIndexBefore? (c : Char) (t : Text) (stop : Int) : Option Nat :=
  lastIndexOf? c (t.take (bound t.length stop))

theorem place?_eq_some_of_lt {length i : Nat} (h : i < length) :
  place? length (i : Int) = some i
  := by
  simp only [place?]
  split
  · omega
  · simp [h]

theorem bound_eq_of_le {length i : Nat} (h : i ≤ length) :
  bound length (i : Int) = i
  := by
  simp only [bound]
  split <;> omega

theorem indexOf?_lt {c : Char} {t : Text} {i : Nat} (h : indexOf? c t = some i) :
  i < t.length
  := (List.findIdx?_eq_some_iff_getElem.mp h).1

theorem indexFrom?_lt {c : Char} {t : Text} {start : Int} {i : Nat}
    (h : indexFrom? c t start = some i) :
  i < t.length
  := by
  obtain ⟨k, hk, rfl⟩ := Option.map_eq_some_iff.mp h
  have hlt := indexOf?_lt hk
  rw [List.length_drop] at hlt
  omega

/-- A search from a position finds nothing in front of it. -/
theorem le_indexFrom? {c : Char} {t : Text} {start i : Nat} (h : indexFrom? c t start = some i) :
  start ≤ i
  := by
  have hlt := indexFrom?_lt h
  obtain ⟨k, -, rfl⟩ := Option.map_eq_some_iff.mp h
  rw [bound] at hlt ⊢
  omega

end Tunescript.Text
