import Tunescript.Sorting.Search

/-!
# What a search finds

A condition cuts a list when it holds for the leading elements and for no later one.  Where
it holds for every element before one for which it holds, all searches find the cut, whatever
places they look at: `bisect_cut`, `gallop_cut`, `leading_cut`.
-/

namespace Tunescript.Sorting

variable {β : Type}

/-- Whether a condition holds for just the first elements of a list, of the given number. -/
def Cut (p : β → Bool) (xs : List β) (n : Nat) : Prop :=
  ∃ a b, xs = a ++ b ∧ a.length = n ∧ (∀ x ∈ a, p x = true) ∧ ∀ x ∈ b, p x = false

/-- Whether a condition holds before each element for which it holds. -/
def HoldsBefore (p : β → Bool) (xs : List β) : Prop :=
  xs.Pairwise fun x y => p y = true → p x = true

theorem Cut.take {p : β → Bool} {xs : List β} {n : Nat} (h : Cut p xs n) :
  ∀ x ∈ xs.take n, p x = true
  := by
  obtain ⟨a, b, rfl, rfl, ha, hb⟩ := h
  simpa using ha

theorem Cut.drop {p : β → Bool} {xs : List β} {n : Nat} (h : Cut p xs n) :
  ∀ x ∈ xs.drop n, p x = false
  := by
  obtain ⟨a, b, rfl, rfl, ha, hb⟩ := h
  simpa using hb

/-- A cut behind an element for which the condition holds is a cut of the whole list. -/
theorem Cut.behind {p : β → Bool} (before : List β) {rest : List β} {x : β} {n : Nat}
    (h : HoldsBefore p (before ++ x :: rest)) (hx : p x = true) (hc : Cut p rest n) :
  Cut p (before ++ x :: rest) (before.length + 1 + n)
  := by
  obtain ⟨a, b, rfl, rfl, ha, hb⟩ := hc
  refine ⟨before ++ x :: a, b, by simp, ?_, ?_, hb⟩
  · simp only [List.length_append, List.length_cons]
    omega
  · intro y hy
    rcases List.mem_append.mp hy with hy | hy
    · exact (List.pairwise_append.mp h).2.2 y hy x List.mem_cons_self hx
    · rcases List.mem_cons.mp hy with rfl | hy
      · exact hx
      · exact ha y hy

/-- A cut before an element for which the condition fails is a cut of the whole list. -/
theorem Cut.inFront {p : β → Bool} (before : List β) {rest : List β} {x : β} {n : Nat}
    (h : HoldsBefore p (before ++ x :: rest)) (hx : p x = false) (hc : Cut p before n) :
  Cut p (before ++ x :: rest) n
  := by
  obtain ⟨a, b, rfl, rfl, ha, hb⟩ := hc
  refine ⟨a, b ++ x :: rest, by simp, rfl, ha, ?_⟩
  intro y hy
  rcases List.mem_append.mp hy with hy | hy
  · exact hb y hy
  · rcases List.mem_cons.mp hy with rfl | hy
    · exact hx
    · have hp := (List.pairwise_cons.mp (List.pairwise_append.mp h).2.1).1 y hy
      cases hy : p y
      · rfl
      · simp [hp hy] at hx

theorem Direction.middle_lt (d : Direction) {n : Nat} (h : 0 < n) :
  d.middle n < n
  := by
  cases d <;> simp only [Direction.middle] <;> omega

theorem bisect_of_nil {d : Direction} {p : β → Bool} {xs : List β}
    (h : xs.drop (d.middle xs.length) = []) :
  bisect d p xs = 0
  := by
  rw [bisect]
  split
  · rfl
  · rename_i e
    rw [h] at e
    cases e

theorem bisect_of_cons {d : Direction} {p : β → Bool} {xs rest : List β} {x : β}
    (h : xs.drop (d.middle xs.length) = x :: rest) :
  bisect d p xs =
    if p x then d.middle xs.length + 1 + bisect d p rest
    else bisect d p (xs.take (d.middle xs.length))
  := by
  rw [bisect]
  split
  · rename_i e
    rw [h] at e
    cases e
  · rename_i e
    rw [h] at e
    cases e
    rfl

theorem gallop_of_nil {d : Direction} {p : β → Bool} {gap : Nat} {xs : List β}
    (h : xs.drop gap = []) :
  gallop d p gap xs = bisect d p xs
  := by
  rw [gallop]
  split
  · rfl
  · rename_i e
    rw [h] at e
    cases e

theorem gallop_of_cons {d : Direction} {p : β → Bool} {gap : Nat} {xs rest : List β} {x : β}
    (h : xs.drop gap = x :: rest) :
  gallop d p gap xs =
    if p x then gap + 1 + gallop d p (2 * gap + 1) rest else bisect d p (xs.take gap)
  := by
  rw [gallop]
  split
  · rename_i e
    rw [h] at e
    cases e
  · rename_i e
    rw [h] at e
    cases e
    rfl

/-- A list whose part from a place on starts with an element. -/
private theorem exists_of_drop {xs rest : List β} {x : β} {n : Nat}
    (h : xs.drop n = x :: rest) :
  ∃ before, xs = before ++ x :: rest ∧ before.length = n ∧ xs.take n = before
  := by
  refine ⟨xs.take n, ?_, ?_, rfl⟩
  · rw [← h, List.take_append_drop]
  · have := congrArg List.length h
    simp only [List.length_drop, List.length_cons] at this
    rw [List.length_take]
    omega

private theorem holdsBefore_parts {p : β → Bool} {before rest : List β} {x : β}
    (h : HoldsBefore p (before ++ x :: rest)) :
  HoldsBefore p before ∧ HoldsBefore p rest
  := by
  obtain ⟨hb, hr, _⟩ := List.pairwise_append.mp h
  exact ⟨hb, (List.pairwise_cons.mp hr).2⟩

theorem bisect_cut (d : Direction) (p : β → Bool) (xs : List β) (h : HoldsBefore p xs) :
  Cut p xs (bisect d p xs)
  := by
  induction xs using bisect.induct d p with
  | case1 xs hd =>
    have hl := congrArg List.length hd
    have hm := d.middle_lt (n := xs.length)
    simp only [List.length_drop, List.length_nil] at hl
    have hx : xs = [] := List.eq_nil_of_length_eq_zero (by omega)
    rw [bisect_of_nil hd, hx]
    exact ⟨[], [], by simp⟩
  | case2 xs x rest hd hx ih =>
    obtain ⟨before, e, hl, ht⟩ := exists_of_drop hd
    rw [bisect_of_cons hd, if_pos hx, ← hl]
    rw [e] at h ⊢
    exact Cut.behind before h hx (ih (holdsBefore_parts h).2)
  | case3 xs x rest hd hx ih =>
    obtain ⟨before, e, hl, ht⟩ := exists_of_drop hd
    rw [bisect_of_cons hd, if_neg hx, ht]
    rw [ht] at ih
    rw [e] at h ⊢
    exact Cut.inFront before h (Bool.eq_false_iff.mpr hx) (ih (holdsBefore_parts h).1)

theorem gallop_cut (d : Direction) (p : β → Bool) (gap : Nat) (xs : List β)
    (h : HoldsBefore p xs) :
  Cut p xs (gallop d p gap xs)
  := by
  induction gap, xs using gallop.induct p with
  | case1 gap xs hd =>
    rw [gallop_of_nil hd]
    exact bisect_cut d p xs h
  | case2 gap xs x rest hd hx ih =>
    obtain ⟨before, e, hl, ht⟩ := exists_of_drop hd
    rw [gallop_of_cons hd, if_pos hx]
    rw [e] at h
    have hc := Cut.behind before h hx (ih (holdsBefore_parts h).2)
    rwa [hl, ← e] at hc
  | case3 gap xs x rest hd hx =>
    obtain ⟨before, e, hl, ht⟩ := exists_of_drop hd
    rw [gallop_of_cons hd, if_neg hx, ht]
    rw [e] at h ⊢
    exact Cut.inFront before h (Bool.eq_false_iff.mpr hx)
      (bisect_cut d p before (holdsBefore_parts h).1)

theorem leading_cut (d : Direction) (p : β → Bool) (xs : List β) (h : HoldsBefore p xs) :
  Cut p xs (leading d p xs)
  := by
  cases xs with
  | nil => exact ⟨[], [], by simp [leading]⟩
  | cons x xs =>
    rw [leading]
    split
    · rename_i hx
      have hc := gallop_cut d p 0 xs (List.pairwise_cons.mp h).2
      have := Cut.behind [] h hx hc
      simpa [Nat.add_comm] using this
    · rename_i hx
      exact Cut.inFront [] h (Bool.eq_false_iff.mpr hx) ⟨[], [], by simp⟩

end Tunescript.Sorting
