import Mathlib.Algebra.BigOperators.Group.List.Basic
import Mathlib.Data.Rat.Floor
import Tunescript.Number.Sorted

/-!
# Rational scalars

On rational numbers the comparisons and sums of scalars are the ordinary ones, rounding up gives the
ceiling, and truncating gives the floor of what is not negative.
-/

namespace Tunescript.Scalar

theorem zero_rat :
  (zero : Rat) = 0
  := rfl

theorem equal_rat_iff {x y : Rat} :
  equal x y ↔ x = y
  := by
  have hequal : equal x y = (x.num == y.num && x.den == y.den) := rfl
  rw [hequal, Bool.and_eq_true, beq_iff_eq, beq_iff_eq]
  constructor
  · rintro ⟨hnum, hden⟩
    apply Rat.ext hnum hden
  · rintro rfl
    exact ⟨rfl, rfl⟩

theorem atMost_rat_iff {x y : Rat} :
  atMost x y ↔ x ≤ y
  := by
  rw [atMost, Bool.or_eq_true, equal_rat_iff, less_rat_iff, le_iff_lt_or_eq]

theorem atMost_rat_eq_false_iff {x y : Rat} :
  atMost x y = false ↔ y < x
  := by
  rw [← Bool.not_eq_true, atMost_rat_iff, not_le]

theorem distance_rat (x y : Rat) :
  distance x y = |x - y|
  := by
  rw [distance]
  split
  · rename_i h
    rw [less_rat_iff, zero_rat] at h
    rw [abs_of_neg h, neg_sub]
  · rename_i h
    rw [less_rat_iff, zero_rat, not_lt] at h
    rw [abs_of_nonneg h]

theorem sum_rat (xs : List Rat) :
  sum xs = xs.sum
  := by
  rw [List.sum_eq_foldl]
  rfl

theorem ceiling_rat (x : Rat) :
  ceiling x = .ok ⌈x⌉
  := by
  have hceiling : ceiling x = .ok (-((-x.num).fdiv x.den)) := rfl
  have hfloor : ⌊-x⌋ = (-x.num).fdiv x.den := by
    rw [Rat.floor_def', Int.fdiv_eq_ediv_of_nonneg _ (Int.natCast_nonneg _), Rat.neg_num,
      Rat.neg_den]
  rw [hceiling, ← hfloor, Int.floor_neg, neg_neg]

/-- What is truncated is rounded down, where nothing is counted below zero. -/
theorem truncate_rat (x : Rat) :
  ∃ n, truncate x = .ok n ∧ n.toNat = ⌊x⌋₊
  := by
  refine ⟨x.num.tdiv x.den, rfl, ?_⟩
  obtain hx | hx := le_or_gt 0 x
  · have hfloor : ⌊x⌋ = x.num.tdiv x.den := by
      rw [Rat.floor_def', Int.tdiv_eq_ediv_of_nonneg (Rat.num_nonneg.mpr hx)]
    rw [← hfloor, Int.floor_toNat]
  · have hnonpos : x.num.tdiv x.den ≤ 0 := by
      have hnum : 0 ≤ -x.num := Int.neg_nonneg.mpr (Rat.num_neg.mpr hx).le
      have hneg := Int.tdiv_nonneg hnum (Int.natCast_nonneg x.den)
      rwa [Int.neg_tdiv, Int.neg_nonneg] at hneg
    rw [Int.toNat_of_nonpos hnonpos, Nat.floor_of_nonpos hx.le]

end Tunescript.Scalar
