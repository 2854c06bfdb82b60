import Mathlib.Tactic.Common
import Tunescript.Sound.Track

/-!
# Mixing sounds

A track holds what a plain row of samples would hold that is lengthened with silence up to the end
of each sound before the sound is added to it in place.  The reserve behind the last sound is
silent, however the cells grow and whatever is mixed in (`Holds.mix`), so that nothing of it is ever
heard (`samples_record`).  Where the order of addition does not matter, that of the sounds does not
matter either (`mixdown_perm`).
-/

namespace Tunescript.Track

/-- A sound: a row of samples, and the sample of the track at which it starts. -/
structure Sound (α : Type) where
  /-- The sample of the track at which the sound starts. -/
  start : Nat
  /-- The samples of the sound. -/
  samples : Array α

/-- The sample of the track at which a sound has ended. -/
def Sound.stop {α : Type} (s : Sound α) : Nat := s.start + s.samples.size

section Rows

variable {α : Type} [Add α] [OfNat α 0]

/-- A row of samples, lengthened with silence to at least the given length. -/
def lengthen (row : List α) (size : Nat) : List α := row ++ List.replicate (size - row.length) 0

/-- A row with samples added to it one by one from a start on. -/
def addInPlace (row : List α) (start : Nat) : List α → List α
  | [] => row
  | x :: xs => addInPlace (row.modify start (· + x)) (start + 1) xs

/-- A row with a sound mixed in: it is lengthened to the end of the sound, which is added in
place. -/
def mixed (row : List α) (s : Sound α) : List α :=
  addInPlace (lengthen row s.stop) s.start s.samples.toList

/-- The row of sounds that are mixed one after the other. -/
def mixdown (ss : List (Sound α)) : List α := ss.foldl mixed []

/-- A track with sounds mixed in one after the other. -/
def record (t : Track α) (ss : List (Sound α)) : Track α :=
  ss.foldl (fun t s => t.mix s.start s.samples) t

theorem record_append (t : Track α) (ss ss' : List (Sound α)) :
  t.record (ss ++ ss') = (t.record ss).record ss'
  := List.foldl_append

omit [Add α] in
theorem length_lengthen (row : List α) (size : Nat) :
  (lengthen row size).length = max row.length size
  := by
  rw [lengthen, List.length_append, List.length_replicate]
  omega

omit [Add α] in
theorem lengthen_lengthen (row : List α) (m n : Nat) :
  lengthen (lengthen row m) n = lengthen row (max m n)
  := by
  have hsum : (m - row.length) + (n - max row.length m) = max m n - row.length := by omega
  rw [lengthen, length_lengthen, lengthen, lengthen, List.append_assoc,
    List.replicate_append_replicate, hsum]

omit [OfNat α 0] in
theorem length_addInPlace (row : List α) (start : Nat) (xs : List α) :
  (addInPlace row start xs).length = row.length
  := by
  induction xs generalizing row start with
  | nil => rfl
  | cons x xs ih => rw [addInPlace, ih, List.length_modify]

omit [OfNat α 0] in
theorem addInPlace_concat (row : List α) (start : Nat) (xs : List α) (x : α) :
  addInPlace row start (xs ++ [x]) = (addInPlace row start xs).modify (start + xs.length) (· + x)
  := by
  induction xs generalizing row start with
  | nil => rfl
  | cons y xs ih =>
    have hstart : start + 1 + xs.length = start + (y :: xs).length := by
      rw [List.length_cons]
      omega
    rw [List.cons_append, addInPlace, ih, addInPlace, hstart]

omit [Add α] [OfNat α 0] in
theorem modify_append {row : List α} {i : Nat} (h : i < row.length) (rest : List α) (f : α → α) :
  (row ++ rest).modify i f = row.modify i f ++ rest
  := by
  induction row generalizing i with
  | nil => cases h
  | cons x row ih =>
    cases i with
    | zero => rfl
    | succ i =>
      rw [List.cons_append, List.modify_succ_cons, ih (Nat.lt_of_succ_lt_succ h),
        List.modify_succ_cons, List.cons_append]

omit [OfNat α 0] in
/-- Samples that end within a row leave alone what stands behind it. -/
theorem addInPlace_append {row xs : List α} {start : Nat} (h : start + xs.length ≤ row.length)
    (rest : List α) :
  addInPlace (row ++ rest) start xs = addInPlace row start xs ++ rest
  := by
  induction xs generalizing row start with
  | nil => rfl
  | cons x xs ih =>
    rw [List.length_cons] at h
    rw [addInPlace, addInPlace, modify_append (by omega), ih]
    rw [List.length_modify]
    omega

omit [Add α] in
/-- A sound ends within a row that is lengthened to its end. -/
theorem le_length_lengthen (row : List α) (s : Sound α) :
  s.start + s.samples.toList.length ≤ (lengthen row s.stop).length
  := by
  rw [length_lengthen]
  apply Nat.le_max_right

/-- A row can be lengthened before or after samples are added within it. -/
theorem lengthen_addInPlace {row xs : List α} {start : Nat} (h : start + xs.length ≤ row.length)
    (size : Nat) :
  lengthen (addInPlace row start xs) size = addInPlace (lengthen row size) start xs
  := by rw [lengthen, length_addInPlace, lengthen, addInPlace_append h]

theorem length_mixed (row : List α) (s : Sound α) :
  (mixed row s).length = max row.length s.stop
  := by rw [mixed, length_addInPlace, length_lengthen]

omit [OfNat α 0] in
/-- Adding to the cells of a track adds to the row of these cells in place. -/
theorem toList_addAt (cells : Array α) (start : Nat) (xs : Array α) :
  (addAt cells start xs).toList = addInPlace cells.toList start xs.toList
  := by
  have htake (n : Nat) (hn : n ≤ xs.size) :
      (Nat.fold n (fun i h cells => cells.modify (start + i) (· + xs[i])) cells).toList =
        addInPlace cells.toList start (xs.toList.take n) := by
    induction n with
    | zero => rfl
    | succ n ih =>
      have hlt : n < xs.toList.length := hn
      have hlength : (xs.toList.take n).length = n := List.length_take_of_le (Nat.le_of_succ_le hn)
      rw [Nat.fold_succ, Array.toList_modify, ih (Nat.le_of_succ_le hn),
        ← List.take_append_getElem hlt, addInPlace_concat, hlength, Array.getElem_toList]
  have hall : xs.toList.take xs.size = xs.toList := List.take_length
  rw [addAt, htake xs.size (Nat.le_refl _), hall]

/-- The track holds the row of samples, and its reserve is silent. -/
structure Holds (t : Track α) (row : List α) : Prop where
  /-- The track is as long as the row. -/
  length : t.length = row.length
  /-- The cells are those of the row with silence behind them. -/
  cells : ∃ n, t.cells.toList = row ++ List.replicate n 0

omit [Add α] in
theorem holds_empty :
  Holds (empty : Track α) []
  := ⟨rfl, 0, rfl⟩

variable {t : Track α} {row : List α}

omit [Add α] in
/-- What is heard of a track is the row that it holds. -/
theorem Holds.samples (h : t.Holds row) :
  t.samples.toList = row
  := by
  obtain ⟨n, hcells⟩ := h.cells
  rw [Track.samples, Array.toList_extract, hcells, h.length]
  simp

omit [Add α] in
/-- New cells take over the row and leave silence behind it. -/
theorem Holds.reserve (h : t.Holds row) (size : Nat) :
  ∃ n, (t.reserve size).toList = lengthen row size ++ List.replicate n 0
  := by
  obtain ⟨n, hcells⟩ := h.cells
  have hsize : t.cells.size = row.length + n := by
    rw [← Array.length_toList, hcells, List.length_append, List.length_replicate]
  have hsamples : t.samples.size = row.length := by rw [← Array.length_toList, h.samples]
  -- Enough silence behind the row is silence behind the lengthened row.
  have hsilence {k : Nat} (hk : size ≤ row.length + k) :
      row ++ List.replicate k (0 : α) =
        lengthen row size ++ List.replicate (k - (size - row.length)) 0 := by
    rw [lengthen, List.append_assoc, List.replicate_append_replicate,
      Nat.add_sub_cancel' (by omega)]
  rw [Track.reserve]
  split
  · use n - (size - row.length)
    rw [hcells, hsilence (by omega)]
  · use max size (2 * t.cells.size) - row.length - (size - row.length)
    rw [Array.toList_append, Array.toList_replicate, h.samples, hsamples, hsilence (by omega)]

/-- Mixing a sound into a track mixes it into the row that the track holds. -/
theorem Holds.mix (h : t.Holds row) (s : Sound α) :
  (t.mix s.start s.samples).Holds (mixed row s)
  := by
  obtain ⟨n, hreserve⟩ := h.reserve s.stop
  constructor
  · rw [length_mixed, Track.mix, h.length]
    rfl
  · use n
    rw [Track.mix, toList_addAt, mixed, ← addInPlace_append (le_length_lengthen row s), ← hreserve]
    rfl

/-- Mixing sounds into a track one after the other mixes them into the row that it holds. -/
theorem Holds.record (h : t.Holds row) (ss : List (Sound α)) :
  (t.record ss).Holds (ss.foldl mixed row)
  := by
  induction ss generalizing t row with
  | nil => exact h
  | cons s ss ih => exact ih (h.mix s)

/-- What is heard of a track is the row of its sounds. -/
theorem samples_record (ss : List (Sound α)) :
  ((empty : Track α).record ss).samples.toList = mixdown ss
  := (holds_empty.record ss).samples

end Rows

section Order

variable {α : Type} [Add α] (hadd : ∀ x y z : α, x + y + z = x + z + y)

include hadd

theorem modify_modify_comm (row : List α) (i j : Nat) (x y : α) :
  (row.modify i (· + x)).modify j (· + y) = (row.modify j (· + y)).modify i (· + x)
  := by
  obtain rfl | hne := eq_or_ne i j
  · rw [List.modify_modify_eq, List.modify_modify_eq]
    congr 1
    funext z
    apply hadd
  · apply List.modify_modify_ne _ _ _ hne

theorem addInPlace_modify (row : List α) (start i : Nat) (xs : List α) (x : α) :
  addInPlace (row.modify i (· + x)) start xs = (addInPlace row start xs).modify i (· + x)
  := by
  induction xs generalizing row start with
  | nil => rfl
  | cons y xs ih => rw [addInPlace, addInPlace, modify_modify_comm hadd, ih]

theorem addInPlace_comm (row : List α) (start start' : Nat) (xs ys : List α) :
  addInPlace (addInPlace row start xs) start' ys = addInPlace (addInPlace row start' ys) start xs
  := by
  induction xs generalizing row start with
  | nil => rfl
  | cons x xs ih => rw [addInPlace, addInPlace, ih, addInPlace_modify hadd]

variable [OfNat α 0]

/-- Two sounds can be mixed in either order. -/
theorem mixed_comm (row : List α) (r s : Sound α) :
  mixed (mixed row r) s = mixed (mixed row s) r
  := by
  -- Both rows are lengthened to the end of both sounds, before they are added in place.
  have hboth (r s : Sound α) :
      mixed (mixed row r) s = addInPlace (addInPlace (lengthen row (max r.stop s.stop)) r.start
        r.samples.toList) s.start s.samples.toList := by
    rw [mixed, mixed, lengthen_addInPlace (le_length_lengthen row r), lengthen_lengthen]
  rw [hboth, hboth, addInPlace_comm hadd, Nat.max_comm]

/-- The row of sounds does not depend on the order in which they are mixed. -/
theorem mixdown_perm {ss ss' : List (Sound α)} (h : ss.Perm ss') :
  mixdown ss = mixdown ss'
  := h.foldl_eq' (fun r _ s _ row => mixed_comm hadd row r s) []

end Order

end Tunescript.Track
