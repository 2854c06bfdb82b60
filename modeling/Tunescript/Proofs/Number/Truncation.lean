import Tunescript.Proofs.Number.Sign

/-!
# Integer parts of doubles without a positive value

The integer part of a double that is not above zero is not above zero either (`truncate_nonpos`).
So it is the same up to zero for a product and for the product with the positive part
(`truncate_mul_positivePart`).
-/

namespace Tunescript.Binary64

open Float.Model
open UnpackedFloat (Sign unpackSign)

variable {x y : Float} {n : Int}

/-- A double with a minus sign has the sign bit. -/
theorem le_toNat_of_negative (h : signOf x.toModel.unpack = .negative) :
  2 ^ 63 ≤ x.toBits.toNat
  := by
  by_contra hlt
  have hpositive : signOf x.toModel.unpack = .positive :=
    signOf_unpack_of_unpackSign (unpackSign_of_lt (Nat.lt_of_not_le hlt))
  rw [hpositive] at h
  cases h

/-- Zeros have no bits but the sign bit. -/
theorem bits_of_zero {s : Sign} (h : x.toModel.unpack = .zero s) :
  x.toBits.toNat / leadingBit % 2048 = 0 ∧ x.toBits.toNat % leadingBit = 0
  := by
  have hexponent : (@UnpackedFloat.unpackExponent Format.binary64 x.toBits.toBitVec).toNat =
      x.toBits.toNat / leadingBit % 2048 := toNat_unpackExponent x.toBits
  have hmantissa : (@UnpackedFloat.unpackMantissa Format.binary64 x.toBits.toBitVec).toNat =
      x.toBits.toNat % leadingBit := toNat_unpackMantissa x.toBits
  change UnpackedFloat.unpack Format.binary64 x.toBits.toBitVec = .zero s at h
  revert h
  fun_cases UnpackedFloat.unpack with
  | case3 _ _ _ _ _ hzero hnone =>
    intro _
    have hnone : @UnpackedFloat.unpackMantissa Format.binary64 x.toBits.toBitVec = 0#52 := hnone
    have hzero : @UnpackedFloat.unpackExponent Format.binary64 x.toBits.toBitVec = 0#11 := hzero
    rw [← hexponent, ← hmantissa, hzero, hnone]
    exact ⟨rfl, rfl⟩
  | _ => nofun

/-- A number that is not above zero has no positive significand. -/
theorem decode_of_not_zero_lt (hx : IsNumber x) (hnot : ¬0.0 < x) :
  ∃ m e, decode x = .finite m e ∧ m ≤ 0
  := by
  have hsign := hx.unpack_of_not_zero_lt hnot
  obtain ⟨m, e, hdecode⟩ := hx
  use m, e, hdecode
  rw [decode] at hdecode
  dsimp only at hdecode
  split at hdecode
  · split at hdecode <;> cases hdecode
  · obtain ⟨rfl, -⟩ := Binary64.finite.inj hdecode
    obtain ⟨s, hzero⟩ | ⟨k, d, hk, hnegative⟩ := hsign
    · obtain ⟨hfield, hfraction⟩ := bits_of_zero hzero
      rw [if_pos hfield, hfraction]
      split <;> rfl
    · have hbits : Nat.pow 2 63 ≤ x.toBits.toNat := by
        apply le_toNat_of_negative
        rw [hnegative]
        rfl
      rw [if_pos hbits]
      apply Int.neg_nonpos_of_nonneg (Int.natCast_nonneg _)

/-- The integer part of a double that is not above zero is at most zero. -/
theorem truncate_nonpos (hnot : ¬0.0 < x) (h : truncate x = .ok n) :
  n ≤ 0
  := by
  obtain ⟨m, e, hdecode, hm⟩ := decode_of_not_zero_lt (exists_truncate_iff.mp ⟨n, h⟩) hnot
  rw [truncate, toIntWith, hdecode] at h
  have hn : n = (ratio m e).1.tdiv (ratio m e).2 := (Except.ok.inj h).symm
  have hratio : (ratio m e).1 ≤ 0 := by
    rw [ratio]
    split
    · apply Int.mul_nonpos_of_nonpos_of_nonneg hm (Int.natCast_nonneg _)
    · exact hm
  have hneg := Int.tdiv_nonneg (Int.neg_nonneg.mpr hratio) (Int.natCast_nonneg (ratio m e).2)
  rw [Int.neg_tdiv] at hneg
  omega

/-- The right factor of a product that is a number is a number. -/
theorem IsNumber.of_mul_right (h : IsNumber (x * y)) :
  IsNumber y
  := by
  rw [isNumber_iff] at h ⊢
  by_contra hy
  have hproduct : (UnpackedFloat.mul Format.binary64 x.toModel.unpack y.toModel.unpack).isFinite =
      false := by
    cases hfactor : y.toModel.unpack with
    | notANumber => cases x.toModel.unpack <;> rfl
    | infinity s => cases x.toModel.unpack <;> rfl
    | _ =>
      rw [hfactor] at hy
      cases hy rfl
  rw [unpack_mul, unpack_pack_of_not_isFinite hproduct, hproduct] at h
  cases h

/-- A number times an unsigned number is above zero only if it is. -/
theorem not_zero_lt_mul (hx : IsNumber x) (hnot : ¬0.0 < x) (hy : Unsigned y)
    (hnumber : IsNumber y) :
  ¬0.0 < x * y
  := by
  rw [zero_lt_iff]
  rintro ⟨-, hunsigned, hnonzero⟩
  obtain ⟨s, hzero⟩ | hnegative := hx.unpack_mul_of_not_zero_lt hy hnot hnumber
  · apply hnonzero s hzero
  · rw [Unsigned, hnegative] at hunsigned
    cases hunsigned

/-- A product with an unsigned double has the same integer part as that of the positive part, up to
zero. -/
theorem truncate_mul_positivePart (hy : Unsigned y) (h : truncate (x * y) = .ok n) :
  ∃ k, truncate (positivePart x * y) = .ok k ∧ k.toNat = n.toNat
  := by
  rw [positivePart]
  split
  · exact ⟨n, h, rfl⟩
  · rename_i hnot
    have hproduct : IsNumber (x * y) := exists_truncate_iff.mp ⟨n, h⟩
    have hnumber := hproduct.of_mul_right
    have hn := truncate_nonpos (not_zero_lt_mul hproduct.of_mul hnot hy hnumber) h
    have hzero : IsNumber (0.0 * y) := by
      rw [isNumber_iff, unpack_zero_mul hy hnumber]
      rfl
    have hle : ¬0.0 < 0.0 * y := by
      rw [zero_lt_iff, unpack_zero_mul hy hnumber]
      rintro ⟨-, -, hnonzero⟩
      apply hnonzero .positive rfl
    obtain ⟨k, hk⟩ := exists_truncate_iff.mpr hzero
    have hk' := truncate_nonpos hle hk
    use k, hk
    omega

end Tunescript.Binary64
