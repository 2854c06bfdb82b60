import Mathlib
import Tunescript.Proofs.Number.Finite

/-!
# Signs of doubles

A double is unsigned if it has no minus sign; an undefined double has none.  Sums, products and
quotients of unsigned doubles are unsigned (`Unsigned.add`, `Unsigned.mul`, `Unsigned.div`), and so
are the doubles of numbers and of numerals without a minus sign (`unsigned_ofRatio`,
`unsigned_ofNumeral`).  No unsigned double is less than zero, and times an unsigned double a number
comes to the same as its positive part exactly if the product is not below zero
(`coincide_mul_positivePart_iff`).
-/

namespace Tunescript

namespace Numeral

/-- Whether a numeral has a minus sign. -/
def isNegative : Numeral → Bool
  | finite negative _ _ | infinite negative => negative
  | undefined => false

theorem isNegative_of_unsigned? {t : Text} {n : Numeral} (h : unsigned? false t = some n) :
  n.isNegative = false
  := by
  rw [unsigned?] at h
  dsimp only at h
  split at h
  · cases h
    rfl
  · split at h
    · cases h
      rfl
    · -- Whether there is a point or not, the numeral is finite.
      split at h
      · split at h
        · cases h
        · obtain ⟨e, -, rfl⟩ := Option.map_eq_some_iff.mp h
          rfl
      · split at h
        · cases h
        · obtain ⟨e, -, rfl⟩ := Option.map_eq_some_iff.mp h
          rfl

/-- A text without a dash writes no numeral with a minus sign. -/
theorem isNegative_of_read? {t : Text} {n : Numeral} (h : read? t = some n) (ht : '-' ∉ t) :
  n.isNegative = false
  := by
  have hsubset : trim t ⊆ t := by
    intro c hc
    rw [trim, Text.dropEndWhile, List.mem_reverse] at hc
    apply (List.dropWhile_sublist isMargin).subset
    apply List.mem_reverse.mp
    apply (List.dropWhile_sublist isMargin).subset hc
  have hsign : (sign (trim t)).1 = false := by
    unfold sign
    split
    · rename_i u hu
      cases ht (hsubset (hu ▸ List.mem_cons_self))
    · rfl
    · rfl
  rw [read?] at h
  dsimp only at h
  rw [hsign] at h
  apply isNegative_of_unsigned? h

end Numeral

namespace Binary64

open Float.Model
open UnpackedFloat (Sign unpackSign)

/-- The sign of an unpacked double, positive if it is undefined. -/
def signOf : UnpackedFloat → Sign
  | .infinity s | .zero s | .finite s .. => s
  | .notANumber => .positive

/-- The double has no minus sign. -/
def Unsigned (x : Float) : Prop := signOf x.toModel.unpack = .positive

section Unpacked

variable {spec : Format} {f g : UnpackedFloat}

theorem unpackSign_pack (f : UnpackedFloat) :
  unpackSign (UnpackedFloat.pack spec f) = (signOf f).toBitVec
  := by
  cases f with
  | notANumber => apply UnpackedFloat.unpackSign_packComponents
  | infinity s => apply UnpackedFloat.unpackSign_packComponents
  | zero s => apply UnpackedFloat.unpackSign_packComponents
  | finite s m e h =>
    rw [UnpackedFloat.pack]
    split
    · apply UnpackedFloat.unpackSign_packComponents
    · split
      · apply UnpackedFloat.unpackSign_packComponents
      · apply UnpackedFloat.unpackSign_packComponents

theorem signOf_unpack {b : BitVec spec.numBits} (hb : spec.Valid b) :
  signOf (UnpackedFloat.unpack spec b) = Sign.ofBitVec (unpackSign b)
  := by
  fun_cases UnpackedFloat.unpack with
  | case1 => rfl
  | case2 mantissa exponent hexponent hmantissa =>
    rw [hb.eq_packedNaN hexponent hmantissa, UnpackedFloat.packedNaN,
      UnpackedFloat.unpackSign_packComponents]
    rfl
  | case3 => rfl
  | case4 => rfl
  | case5 => rfl

/-- Packing keeps the sign. -/
theorem signOf_unpack_pack (f : UnpackedFloat) :
  signOf (UnpackedFloat.unpack spec (UnpackedFloat.pack spec f)) = signOf f
  := by
  rw [signOf_unpack UnpackedFloat.valid_pack, unpackSign_pack, Sign.ofBitVec_toBitVec]

theorem signOf_roundWithAccuracy (s : Sign) (m : Nat) (e : Int) (a : UnpackedFloat.Accuracy) :
  signOf (UnpackedFloat.roundWithAccuracy spec s m e a) = s
  := by
  rw [UnpackedFloat.roundWithAccuracy]
  dsimp only
  split
  · rfl
  · rfl

/-- A number that is not negative is normalized without a minus sign. -/
theorem signOf_normalize {m : Int} (hm : 0 ≤ m) (e : Int) :
  signOf (UnpackedFloat.normalize spec m e .positive) = .positive
  := by
  rw [UnpackedFloat.normalize]
  split
  · rename_i hlt
    have hm' := Int.compare_eq_lt.mp hlt
    omega
  · rfl
  · apply signOf_roundWithAccuracy

/-- A sum has no minus sign if neither side has one. -/
theorem signOf_add (hf : signOf f = .positive) (hg : signOf g = .positive) :
  signOf (UnpackedFloat.add spec f g) = .positive
  := by
  cases f with
  | notANumber => rfl
  | infinity s =>
    obtain rfl : s = .positive := hf
    cases g with
    | infinity s =>
      obtain rfl : s = .positive := hg
      rfl
    | _ => rfl
  | zero s =>
    obtain rfl : s = .positive := hf
    cases g with
    | zero s =>
      obtain rfl : s = .positive := hg
      rfl
    | _ => exact hg
  | finite s m e h =>
    obtain rfl : s = .positive := hf
    cases g with
    | finite s n d h =>
      obtain rfl : s = .positive := hg
      apply signOf_normalize
      apply Int.add_nonneg <;> apply Int.natCast_nonneg
    | infinity s => exact hg
    | _ => rfl

/-- Unless it is undefined, a product has the product of the signs. -/
theorem signOf_mul (hf : signOf f = .positive) (hg : signOf g = .positive) :
  signOf (UnpackedFloat.mul spec f g) = .positive
  := by
  have hsigns : signOf f * signOf g = .positive := by
    rw [hf, hg]
    rfl
  fun_cases UnpackedFloat.mul with
  | case3 => exact hsigns
  | case4 => exact hsigns
  | case5 => exact hsigns
  | case8 => exact hsigns
  | case9 => exact hsigns
  | case10 => exact hsigns
  | case11 =>
    rw [signOf_roundWithAccuracy]
    exact hsigns
  | _ => rfl

theorem signOf_div (hf : signOf f = .positive) (hg : signOf g = .positive) :
  signOf (UnpackedFloat.div spec f g) = .positive
  := by
  have hsigns : signOf f / signOf g = .positive := by
    rw [hf, hg]
    rfl
  fun_cases UnpackedFloat.div with
  | case11 =>
    rw [signOf_roundWithAccuracy]
    exact hsigns
  | _ => first | exact hsigns | rfl

/-- Infinite and undefined doubles are packed without loss. -/
theorem unpack_pack_of_not_isFinite (hf : f.isFinite = false) :
  UnpackedFloat.unpack Format.binary64 (UnpackedFloat.pack Format.binary64 f) = f
  := by
  cases f with
  | notANumber => rfl
  | infinity s => cases s <;> rfl
  | zero s => cases hf
  | finite s m e h => cases hf

/-- What is infinite or undefined does not become finite in a product. -/
theorem isFinite_mul (hf : f.isFinite = false) :
  (UnpackedFloat.mul spec f g).isFinite = false
  := by
  cases f with
  | notANumber => rfl
  | infinity s => cases g <;> rfl
  | zero s => cases hf
  | finite s m e h => cases hf

/-- Without a sign bit there is no minus sign. -/
theorem signOf_unpack_of_unpackSign {b : BitVec spec.numBits} (hb : unpackSign b = 0#1) :
  signOf (UnpackedFloat.unpack spec b) = .positive
  := by
  have hsign : Sign.ofBitVec (unpackSign b) = .positive := by
    rw [hb]
    rfl
  fun_cases UnpackedFloat.unpack with
  | case2 => rfl
  | _ => exact hsign

theorem signOf_ofScientific (m : Nat) (e : Int) :
  signOf (UnpackedFloat.ofScientific spec m e) = .positive
  := by
  fun_cases UnpackedFloat.ofScientific with
  | case4 => apply signOf_mul rfl rfl
  | case5 => apply signOf_div rfl rfl
  | _ => rfl

end Unpacked

section Unsigned

variable {x y : Float}

theorem Unsigned.add (hx : Unsigned x) (hy : Unsigned y) :
  Unsigned (x + y)
  := (signOf_unpack_pack _).trans (signOf_add hx hy)

theorem Unsigned.mul (hx : Unsigned x) (hy : Unsigned y) :
  Unsigned (x * y)
  := (signOf_unpack_pack _).trans (signOf_mul hx hy)

theorem Unsigned.div (hx : Unsigned x) (hy : Unsigned y) :
  Unsigned (x / y)
  := (signOf_unpack_pack _).trans (signOf_div hx hy)

theorem unsigned_zero :
  Unsigned 0.0
  := by
  rw [Unsigned]
  rfl

theorem unpackSign_of_lt {b : UInt64} (hb : b.toNat < 2 ^ 63) :
  @unpackSign Format.binary64 b.toBitVec = 0#1
  := by
  have htoNat : b.toBitVec.toNat = b.toNat := rfl
  have hquotient : b.toNat / 2 ^ (52 + 11) = 0 := Nat.div_eq_of_lt hb
  apply BitVec.eq_of_toNat_eq
  rw [UnpackedFloat.unpackSign_def, BitVec.extractLsb'_toNat, htoNat, Nat.shiftRight_eq_div_pow,
    hquotient]
  rfl

/-- Bits below the sign bit make an unsigned double. -/
theorem unsigned_ofBits {b : UInt64} (hb : b.toNat < 2 ^ 63) :
  Unsigned (Float.ofBits b)
  := (signOf_unpack_pack _).trans (signOf_unpack_of_unpackSign (unpackSign_of_lt hb))

theorem unsigned_ofNat (n : Nat) :
  Unsigned (Float.ofNat n)
  := by
  have hone : Float.exactlyRepresentablePowersOfTen[0] = Float.ofBits 0x3FF0000000000000 := by
    simp [Float.exactlyRepresentablePowersOfTen]
  rw [Float.ofNat]
  change Unsigned (Float.ofScientific n false 0)
  rw [Float.ofScientific]
  split
  · apply Unsigned.mul
    · exact (signOf_unpack_pack _).trans (signOf_normalize (Int.natCast_nonneg _) 0)
    · rw [hone]
      apply unsigned_ofBits
      decide
  · exact (signOf_unpack_pack _).trans (signOf_ofScientific _ _)

theorem unsigned_ofInt {n : Int} (hn : 0 ≤ n) :
  Unsigned (Float.ofInt n)
  := by
  obtain ⟨n, rfl⟩ := Int.eq_ofNat_of_zero_le hn
  apply unsigned_ofNat

theorem unsigned_infinity :
  Unsigned (Float.ofBits infinityBits.toUInt64)
  := by
  rw [Unsigned]
  rfl

/-- The double nearest to a fraction of natural numbers is unsigned. -/
theorem unsigned_ofRatio (n d : Nat) :
  Unsigned (ofRatio n d)
  := by
  rw [ofRatio]
  split
  · apply unsigned_zero
  · apply unsigned_ofBits
    have hinfinity : infinityBits < 2 ^ 63 := by decide
    have hlt (b : Nat) : (min b infinityBits).toUInt64.toNat < 2 ^ 63 := by
      apply Nat.lt_of_le_of_lt (Nat.mod_le _ _)
      apply Nat.lt_of_le_of_lt (Nat.min_le_right _ _) hinfinity
    apply hlt

/-- The exponent in the bits of a double. -/
theorem toNat_unpackExponent (b : UInt64) :
  (@UnpackedFloat.unpackExponent Format.binary64 b.toBitVec).toNat = b.toNat / 2 ^ 52 % 2048
  := by
  have htoNat : b.toBitVec.toNat = b.toNat := rfl
  rw [UnpackedFloat.unpackExponent_def, BitVec.extractLsb'_toNat, htoNat, Nat.shiftRight_eq_div_pow]
  rfl

/-- The fraction in the bits of a double. -/
theorem toNat_unpackMantissa (b : UInt64) :
  (@UnpackedFloat.unpackMantissa Format.binary64 b.toBitVec).toNat = b.toNat % 2 ^ 52
  := by
  rw [UnpackedFloat.unpackMantissa_def, BitVec.extractLsb'_toNat, Nat.shiftRight_zero]
  rfl

/-- The double nearest to a numeral without a minus sign is unsigned. -/
theorem unsigned_ofNumeral {n : Numeral} (hn : n.isNegative = false) :
  Unsigned (ofNumeral n)
  := by
  cases n with
  | finite negative digits exponent =>
    obtain rfl : negative = false := hn
    rw [ofNumeral, if_neg Bool.false_ne_true]
    split
    · apply unsigned_zero
    · split
      · apply unsigned_infinity
      · split
        · apply unsigned_ofRatio
        · apply unsigned_ofRatio
  | infinite negative =>
    obtain rfl : negative = false := hn
    apply unsigned_infinity
  | undefined => apply unsigned_zero.div unsigned_zero

end Unsigned

section Comparison

variable {x y : Float}

/-- The doubles below zero are those with a minus sign that are not zero. -/
theorem lt_zero_iff :
  x < 0.0 ↔ signOf x.toModel.unpack = .negative ∧ ∀ s, x.toModel.unpack ≠ .zero s
  := by
  have hlt : x < 0.0 ↔ UnpackedFloat.lt x.toModel.unpack (.zero .positive) = true := by
    apply decide_eq_true_iff
  rw [hlt]
  cases x.toModel.unpack with
  | notANumber => simp [UnpackedFloat.lt, UnpackedFloat.compare, signOf]
  | infinity s => cases s <;> simp [UnpackedFloat.lt, UnpackedFloat.compare, signOf]
  | zero s => simp [UnpackedFloat.lt, UnpackedFloat.compare, signOf]
  | finite s m e h => cases s <;> simp [UnpackedFloat.lt, UnpackedFloat.compare, signOf]

theorem Unsigned.not_lt_zero (hx : Unsigned x) :
  ¬x < 0.0
  := by
  rw [lt_zero_iff, hx]
  rintro ⟨⟨⟩, -⟩

/-- A double is a number exactly if it is finite. -/
theorem isNumber_iff :
  IsNumber x ↔ x.toModel.unpack.isFinite
  := by
  have hexponent : (@UnpackedFloat.unpackExponent Format.binary64 x.toBits.toBitVec).toNat =
      x.toBits.toNat / leadingBit % 2048 := toNat_unpackExponent x.toBits
  have hones : @UnpackedFloat.unpackExponent Format.binary64 x.toBits.toBitVec = -1#11 ↔
      x.toBits.toNat / leadingBit % 2048 = 2047 := by
    rw [← hexponent]
    exact BitVec.toNat_inj.symm
  have hnumber : IsNumber x ↔ x.toBits.toNat / leadingBit % 2048 ≠ 2047 := by
    rw [IsNumber, decode]
    dsimp only
    split
    · split
      · simp [*]
      · simp [*]
    · simp [*]
  have hfinite : x.toModel.unpack.isFinite ↔
      @UnpackedFloat.unpackExponent Format.binary64 x.toBits.toBitVec ≠ -1#11 := by
    change (UnpackedFloat.unpack Format.binary64 x.toBits.toBitVec).isFinite ↔ _
    fun_cases UnpackedFloat.unpack with
    | case1 _ _ _ _ h => exact iff_of_false Bool.false_ne_true (not_not.mpr h)
    | case2 _ _ h => exact iff_of_false Bool.false_ne_true (not_not.mpr h)
    | case3 _ _ _ _ h => exact iff_of_true rfl h
    | case4 _ _ _ _ _ h => exact iff_of_true rfl h
    | case5 _ _ _ _ _ h => exact iff_of_true rfl h
  rw [hnumber, hfinite, ne_eq, ne_eq, hones]

/-- The factors of a product that is a number are numbers. -/
theorem IsNumber.of_mul (h : IsNumber (x * y)) :
  IsNumber x
  := by
  rw [isNumber_iff] at h ⊢
  by_contra hx
  let product := UnpackedFloat.mul Format.binary64 x.toModel.unpack y.toModel.unpack
  have hproduct : product.isFinite = false := isFinite_mul (Bool.not_eq_true _ |>.mp hx)
  have hsame : (x * y).toModel.unpack = product := unpack_pack_of_not_isFinite hproduct
  rw [hsame, hproduct] at h
  cases h

/-- The doubles are the same, or zeros with different signs. -/
def Coincide (x y : Float) : Prop := x = y ∨ x == y

/-- The double, or zero if it is not above zero. -/
def positivePart (x : Float) : Float := if 0.0 < x then x else 0.0

theorem zero_lt_iff :
  0.0 < x ↔ x.toModel.unpack ≠ .notANumber ∧ Unsigned x ∧ ∀ s, x.toModel.unpack ≠ .zero s
  := by
  have hlt : 0.0 < x ↔ UnpackedFloat.lt (.zero .positive) x.toModel.unpack = true := by
    apply decide_eq_true_iff
  rw [hlt, Unsigned]
  cases x.toModel.unpack with
  | notANumber => simp [UnpackedFloat.lt, UnpackedFloat.compare]
  | infinity s => cases s <;> simp [UnpackedFloat.lt, UnpackedFloat.compare, signOf]
  | zero s => simp [UnpackedFloat.lt, UnpackedFloat.compare]
  | finite s m e h => cases s <;> simp [UnpackedFloat.lt, UnpackedFloat.compare, signOf]

/-- A double that is not at most zero is above zero or undefined. -/
theorem not_le_zero_iff :
  ¬x ≤ 0.0 ↔ 0.0 < x ∨ x.isNaN
  := by
  have hle : x ≤ 0.0 ↔ UnpackedFloat.le x.toModel.unpack (.zero .positive) = true := by
    apply decide_eq_true_iff
  have hlt : 0.0 < x ↔ UnpackedFloat.lt (.zero .positive) x.toModel.unpack = true := by
    apply decide_eq_true_iff
  have hnan : x.isNaN = x.toModel.unpack.isNaN := rfl
  rw [hle, hlt, hnan]
  cases x.toModel.unpack with
  | notANumber =>
    simp [UnpackedFloat.le, UnpackedFloat.lt, UnpackedFloat.compare, UnpackedFloat.isNaN]
  | infinity s =>
    cases s <;> simp [UnpackedFloat.le, UnpackedFloat.lt, UnpackedFloat.compare,
      UnpackedFloat.isNaN]
  | zero s =>
    simp [UnpackedFloat.le, UnpackedFloat.lt, UnpackedFloat.compare, UnpackedFloat.isNaN]
  | finite s m e h =>
    cases s <;> simp [UnpackedFloat.le, UnpackedFloat.lt, UnpackedFloat.compare,
      UnpackedFloat.isNaN]

/-- Only zeros coincide with zero. -/
theorem coincide_zero_iff (hy : y.toModel.unpack = .zero .positive) :
  Coincide x y ↔ ∃ s, x.toModel.unpack = .zero s
  := by
  have hbeq : (x == y) = UnpackedFloat.beq x.toModel.unpack (.zero .positive) := by
    rw [← hy]
    rfl
  constructor
  · rintro (rfl | hxy)
    · exact ⟨_, hy⟩
    · rw [hbeq] at hxy
      cases hx : x.toModel.unpack with
      | zero s => exact ⟨s, rfl⟩
      | notANumber =>
        rw [hx] at hxy
        cases hxy
      | infinity s =>
        rw [hx] at hxy
        cases s <;> cases hxy
      | finite s m e h =>
        rw [hx] at hxy
        cases s <;> cases hxy
  · rintro ⟨s, hx⟩
    rw [Coincide, hbeq, hx]
    exact .inr rfl

/-- A double that is zero or has a minus sign coincides with zero exactly if it is not below
zero. -/
theorem coincide_zero_iff_not_lt_zero (hy : y.toModel.unpack = .zero .positive)
    (hx : (∃ s, x.toModel.unpack = .zero s) ∨ signOf x.toModel.unpack = .negative) :
  Coincide x y ↔ ¬x < 0.0
  := by
  rw [coincide_zero_iff hy, lt_zero_iff]
  constructor
  · rintro ⟨s, hs⟩ ⟨-, hnonzero⟩
    apply hnonzero s hs
  · intro hnot
    obtain hzero | hnegative := hx
    · exact hzero
    · by_contra hnonzero
      apply hnot
      use hnegative
      intro s hs
      apply hnonzero ⟨s, hs⟩

theorem unpack_mul (x y : Float) :
  (x * y).toModel.unpack = UnpackedFloat.unpack Format.binary64 (UnpackedFloat.pack Format.binary64
    (UnpackedFloat.mul Format.binary64 x.toModel.unpack y.toModel.unpack))
  := rfl

/-- A product is undefined if that of the factors is. -/
theorem mul_eq_of_notANumber {z : Float}
    (hx : UnpackedFloat.mul Format.binary64 x.toModel.unpack y.toModel.unpack = .notANumber)
    (hz : UnpackedFloat.mul Format.binary64 z.toModel.unpack y.toModel.unpack = .notANumber) :
  x * y = z * y ∧ ¬x * y < 0.0
  := by
  constructor
  · change Float.ofModel (Float.Model.pack _) = Float.ofModel (Float.Model.pack _)
    rw [hx, hz]
  · rw [lt_zero_iff, unpack_mul, hx]
    rintro ⟨hsign, -⟩
    cases hsign

/-- A number that is not above zero is zero or has a minus sign. -/
theorem IsNumber.unpack_of_not_zero_lt (hx : IsNumber x) (hnot : ¬0.0 < x) :
  (∃ s, x.toModel.unpack = .zero s) ∨ ∃ m e h, x.toModel.unpack = .finite .negative m e h
  := by
  rw [isNumber_iff] at hx
  rw [zero_lt_iff, Unsigned] at hnot
  cases hunpack : x.toModel.unpack with
  | notANumber =>
    rw [hunpack] at hx
    cases hx
  | infinity s =>
    rw [hunpack] at hx
    cases hx
  | zero s => exact .inl ⟨s, rfl⟩
  | finite s m e h =>
    cases s with
    | negative => exact .inr ⟨m, e, h, rfl⟩
    | positive =>
      rw [hunpack] at hnot
      cases hnot ⟨nofun, rfl, nofun⟩

section Factor

variable (hy : Unsigned y)

include hy

/-- Zero times an unsigned number is zero. -/
theorem unpack_zero_mul (hnumber : IsNumber y) :
  (0.0 * y).toModel.unpack = .zero .positive
  := by
  have hzero : (0.0 : Float).toModel.unpack = .zero .positive := rfl
  rw [isNumber_iff] at hnumber
  rw [Unsigned] at hy
  rw [unpack_mul, hzero]
  cases hfactor : y.toModel.unpack with
  | zero s =>
    obtain rfl : s = .positive := by
      rwa [hfactor] at hy
    exact UnpackedFloat.unpack_packedZero
  | finite s m e h =>
    obtain rfl : s = .positive := by
      rwa [hfactor] at hy
    exact UnpackedFloat.unpack_packedZero
  | _ =>
    rw [hfactor] at hnumber
    cases hnumber

/-- A number that is not above zero, times an unsigned number, is zero or has a minus sign. -/
theorem IsNumber.unpack_mul_of_not_zero_lt (hx : IsNumber x) (hnot : ¬0.0 < x)
    (hnumber : IsNumber y) :
  (∃ s, (x * y).toModel.unpack = .zero s) ∨ signOf (x * y).toModel.unpack = .negative
  := by
  rw [isNumber_iff] at hnumber
  rw [Unsigned] at hy
  rw [unpack_mul]
  obtain ⟨s, hx⟩ | ⟨m, e, h, hx⟩ := hx.unpack_of_not_zero_lt hnot
  · rw [hx]
    cases hfactor : y.toModel.unpack with
    | zero t => exact .inl ⟨s * t, UnpackedFloat.unpack_packedZero⟩
    | finite t k d hk => exact .inl ⟨s * t, UnpackedFloat.unpack_packedZero⟩
    | _ =>
      rw [hfactor] at hnumber
      cases hnumber
  · rw [hx]
    cases hfactor : y.toModel.unpack with
    | zero t => exact .inl ⟨.negative * t, UnpackedFloat.unpack_packedZero⟩
    | finite t k d hk =>
      obtain rfl : t = .positive := by
        rwa [hfactor] at hy
      rw [UnpackedFloat.mul, signOf_unpack_pack, signOf_roundWithAccuracy]
      exact .inr rfl
    | _ =>
      rw [hfactor] at hnumber
      cases hnumber

/-- Multiplied by an unsigned double, a number coincides with its positive part exactly if the
product is not below zero. -/
theorem coincide_mul_positivePart_iff (hx : IsNumber x) :
  Coincide (x * y) (positivePart x * y) ↔ ¬x * y < 0.0
  := by
  rw [positivePart]
  split
  · rename_i hpositive
    exact iff_of_true (.inl rfl) ((zero_lt_iff.mp hpositive).2.1.mul hy).not_lt_zero
  · rename_i hnot
    by_cases hnumber : IsNumber y
    · apply coincide_zero_iff_not_lt_zero (unpack_zero_mul hy hnumber)
      apply hx.unpack_mul_of_not_zero_lt hy hnot hnumber
    · rw [isNumber_iff] at hnumber
      have hundefined
          (hleft : UnpackedFloat.mul Format.binary64 x.toModel.unpack y.toModel.unpack =
            .notANumber)
          (hright : UnpackedFloat.mul Format.binary64 (.zero .positive) y.toModel.unpack =
            .notANumber) :
          Coincide (x * y) (0.0 * y) ↔ ¬x * y < 0.0 := by
        obtain ⟨hsame, hlt⟩ := mul_eq_of_notANumber (z := 0.0) hleft hright
        exact iff_of_true (.inl hsame) hlt
      have hx := hx.unpack_of_not_zero_lt hnot
      rw [Unsigned] at hy
      -- An infinite factor makes the product with zero undefined, but not that with a negative
      -- number.
      cases hfactor : y.toModel.unpack with
      | notANumber =>
        apply hundefined <;> rw [hfactor]
        · obtain ⟨s, hx⟩ | ⟨m, e, h, hx⟩ := hx <;> rw [hx] <;> rfl
        · rfl
      | infinity s =>
        obtain rfl : s = .positive := by
          rwa [hfactor] at hy
        obtain ⟨s, hx⟩ | ⟨m, e, h, hx⟩ := hx
        · apply hundefined <;> rw [hfactor]
          · rw [hx]
            rfl
          · rfl
        · have hproduct : (x * y).toModel.unpack = .infinity .negative := by
            rw [unpack_mul, hx, hfactor, UnpackedFloat.mul, unpack_pack_of_not_isFinite rfl]
            rfl
          have hclamped : (0.0 * y).toModel.unpack = .notANumber := by
            rw [unpack_mul, hfactor]
            rfl
          apply iff_of_false
          · rintro (hsame | hequal)
            · rw [hsame, hclamped] at hproduct
              cases hproduct
            · have hbeq : (x * y == 0.0 * y) =
                  UnpackedFloat.beq (.infinity .negative) .notANumber := by
                rw [← hproduct, ← hclamped]
                rfl
              rw [hbeq] at hequal
              cases hequal
          · rw [not_not, lt_zero_iff, hproduct]
            exact ⟨rfl, nofun⟩
      | _ =>
        rw [hfactor] at hnumber
        cases hnumber rfl

end Factor

end Comparison

end Binary64

end Tunescript
