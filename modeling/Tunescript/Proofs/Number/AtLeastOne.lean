import Tunescript.Proofs.Number.Sign

/-!
# Doubles that are at least one

A double is at least one if it is infinity, or a number with all bits of the mantissa whose last
place is not below that of one (`AtLeastOne`).  Rounding keeps a number at least one
(`exists_roundWithAccuracy`, `exists_round`), and so does packing it (`unpack_pack_finite`).  Thus
products of such doubles are at least one (`AtLeastOne.mul`), and so are the doubles of positive
whole numerals (`atLeastOne_ofNumeral`) and what powers of two up to one leave of two
(`atLeastOne_two_sub_powerOfTwo`).  None of these is zero (`AtLeastOne.isZero_eq_false`).
-/

namespace Tunescript.Binary64

open Float.Model
open UnpackedFloat (Sign ExtendedMantissa Accuracy)

section Rounding

variable {m : Nat} {e : Int}

/-- Shifting drops bits of the mantissa. -/
theorem mantissa_shiftRight (em : ExtendedMantissa) (k : Nat) :
  (em >>> k).mantissa = em.mantissa / 2 ^ k
  := by
  change (k.repeat ExtendedMantissa.shiftRightOne em).mantissa = _
  induction k with
  | zero => rw [Nat.pow_zero, Nat.div_one, Nat.repeat]
  | succ k ih =>
    rw [Nat.pow_succ, ← Nat.div_div_eq_div_mul, ← ih]
    rfl

/-- Rounding adds at most one to the mantissa. -/
theorem roundedMantissa_bounds (em : ExtendedMantissa) :
  em.mantissa ≤ em.roundedMantissa ∧ em.roundedMantissa ≤ em.mantissa + 1
  := by
  rw [ExtendedMantissa.roundedMantissa]
  cases em.accuracy with
  | exact => exact ⟨Nat.le_refl _, Nat.le_succ _⟩
  | inexact o =>
    cases o with
    | lt => exact ⟨Nat.le_refl _, Nat.le_succ _⟩
    | eq =>
      rw [Accuracy.roundToNearestEven]
      omega
    | gt => exact ⟨Nat.le_succ _, Nat.le_refl _⟩

/-- A mantissa that has enough bits has exactly the bits of a double after shifting. -/
theorem exists_shiftToTargetExponent (hm : 2 ^ 52 ≤ m) (he : 0 ≤ m.log2 + e) (a : Accuracy) :
  ∃ em, UnpackedFloat.shiftToTargetExponent .binary64 m e a = (em, m.log2 + e - 52) ∧
    2 ^ 52 ≤ em.mantissa ∧ em.mantissa < 2 ^ 53
  := by
  have hne : m ≠ 0 := by omega
  have hlog : 52 ≤ m.log2 := (Nat.le_log2 hne).mpr hm
  have htarget : Format.targetExponent .binary64 (totalExponent m e) = m.log2 + e - 52 := by
    rw [Format.targetExponent, totalExponent]
    change max (m.log2 + 1 + e - 53) (-1074 : Int) = _
    omega
  have hshift : (m.log2 + e - 52 - e).toNat = m.log2 - 52 := by omega
  have hmantissa (a : Accuracy) : (ExtendedMantissa.ofMantissaAndAccuracy m a).mantissa = m := by
    cases a with
    | exact => rfl
    | inexact o => cases o <;> rfl
  rw [UnpackedFloat.shiftToTargetExponent, htarget, UnpackedFloat.shiftToExponent, hshift]
  refine ⟨_, congrArg _ (by omega), ?_, ?_⟩
  · rw [mantissa_shiftRight, hmantissa, Nat.le_div_iff_mul_le (Nat.two_pow_pos _), ← Nat.pow_add,
      Nat.add_sub_cancel' hlog]
    apply Nat.log2_self_le hne
  · rw [mantissa_shiftRight, hmantissa, Nat.div_lt_iff_lt_mul (Nat.two_pow_pos _), ← Nat.pow_add]
    have hlt : 53 + (m.log2 - 52) = m.log2 + 1 := by omega
    rw [hlt]
    apply Nat.lt_log2_self

/-- What is at least one and has enough bits in its mantissa is rounded to a double that is at least
one, and at most by one place further. -/
theorem exists_roundWithAccuracy (s : Sign) (hm : 2 ^ 52 ≤ m) (he : 0 ≤ m.log2 + e) (a : Accuracy) :
  ∃ n d h, UnpackedFloat.roundWithAccuracy .binary64 s m e a = .finite s n d h ∧
    2 ^ 52 ≤ n ∧ n < 2 ^ 53 ∧ m.log2 + e - 52 ≤ d ∧ d ≤ m.log2 + e - 51
  := by
  obtain ⟨em, hem, hlow, hhigh⟩ := exists_shiftToTargetExponent hm he a
  obtain ⟨hle, hge⟩ := roundedMantissa_bounds em
  have hrounded : 2 ^ 52 ≤ em.roundedMantissa := hlow.trans hle
  have hne : em.roundedMantissa ≠ 0 := by omega
  have hlog : 52 ≤ em.roundedMantissa.log2 := (Nat.le_log2 hne).mpr hrounded
  have hlog' : em.roundedMantissa.log2 < 54 := by
    rw [Nat.log2_lt hne]
    omega
  obtain ⟨fm, hfm, hlow', hhigh'⟩ :=
    exists_shiftToTargetExponent (e := m.log2 + e - 52) hrounded (by omega) .exact
  have hpos : fm.mantissa ≠ 0 := by omega
  rw [UnpackedFloat.roundWithAccuracy, hem]
  dsimp only
  rw [hfm]
  dsimp only
  rw [dif_neg hpos]
  refine ⟨_, _, _, rfl, hlow', hhigh', ?_, ?_⟩
  · omega
  · omega

theorem log2_shiftLeft (hm : m ≠ 0) (k : Nat) :
  (m <<< k).log2 = m.log2 + k
  := by
  induction k with
  | zero => rfl
  | succ k ih =>
    rw [Nat.shiftLeft_succ, Nat.log2_two_mul, ih]
    · omega
    · rw [Nat.shiftLeft_eq]
      exact Nat.mul_ne_zero hm (Nat.two_pow_pos k).ne'

/-- What is at least one is rounded to a double that is at least one, and at most by one place
further. -/
theorem exists_round (s : Sign) (hm : m ≠ 0) (he : 0 ≤ m.log2 + e) :
  ∃ n d h, UnpackedFloat.round .binary64 s m e = .finite s n d h ∧
    2 ^ 52 ≤ n ∧ n < 2 ^ 53 ∧ m.log2 + e - 52 ≤ d ∧ d ≤ m.log2 + e - 51
  := by
  have htarget : Format.targetExponent .binary64 (totalExponent m e) = m.log2 + e - 52 := by
    rw [Format.targetExponent, totalExponent]
    change max (m.log2 + 1 + e - 53) (-1074 : Int) = _
    omega
  have hshift : (e - (m.log2 + e - 52)).toNat = 52 - m.log2 := by omega
  have hlog := log2_shiftLeft hm (52 - m.log2)
  have hbits : 2 ^ 52 ≤ m <<< (52 - m.log2) := by
    rw [← Nat.le_log2, hlog]
    · omega
    · rw [Nat.shiftLeft_eq]
      exact Nat.mul_ne_zero hm (Nat.two_pow_pos _).ne'
  rw [UnpackedFloat.round, htarget, UnpackedFloat.decreaseExponent, hshift]
  dsimp only
  obtain ⟨n, d, h, hround, hlow, hhigh, hle, hge⟩ :=
    exists_roundWithAccuracy s (e := e - (52 - m.log2 : Nat)) hbits (by omega) .exact
  refine ⟨n, d, h, hround, hlow, hhigh, ?_, ?_⟩
  · omega
  · omega

/-- A positive number is normalized by rounding. -/
theorem normalize_natCast (hm : m ≠ 0) (e : Int) (s : Sign) :
  UnpackedFloat.normalize .binary64 m e s = UnpackedFloat.round .binary64 .positive m e
  := by
  have hpositive : compare (m : Int) 0 = .gt := by
    rw [Int.compare_eq_gt]
    omega
  rw [UnpackedFloat.normalize, hpositive]
  rfl

end Rounding

section Packing

/-- Bits whose exponent is neither the lowest nor the highest make a double with all bits of the
mantissa. -/
theorem unpack_of_normal {b : BitVec 64}
    (hlowest : @UnpackedFloat.unpackExponent .binary64 b ≠ 0#11)
    (hhighest : @UnpackedFloat.unpackExponent .binary64 b ≠ -1#11) :
  ∃ h, UnpackedFloat.unpack .binary64 b =
    .finite (Sign.ofBitVec (@UnpackedFloat.unpackSign .binary64 b))
      (2 ^ 52 + (@UnpackedFloat.unpackMantissa .binary64 b).toNat)
      ((@UnpackedFloat.unpackExponent .binary64 b).toNat - 1075) h
  := by
  have happend (v : BitVec 52) : (1#1 ++ v).toNat = 2 ^ 52 + v.toNat := by
    rw [BitVec.toNat_append, ← Nat.shiftLeft_add_eq_or_of_lt v.isLt]
    rfl
  refine ⟨by omega, ?_⟩
  fun_cases UnpackedFloat.unpack with
  | case1 _ _ _ _ h => cases hhighest h
  | case2 _ _ h => cases hhighest h
  | case3 _ _ _ _ _ h => cases hlowest h
  | case4 _ _ _ _ _ _ h => cases hlowest h
  | case5 mantissa =>
    rw [UnpackedFloat.finite.injEq]
    exact ⟨rfl, happend mantissa, rfl⟩

/-- Bits with the lowest exponent make zero, or a double in the last place. -/
theorem unpack_of_subnormal {b : BitVec 64}
    (hlowest : @UnpackedFloat.unpackExponent .binary64 b = 0#11) :
  UnpackedFloat.unpack .binary64 b = .zero (Sign.ofBitVec (@UnpackedFloat.unpackSign .binary64 b)) ∨
    ∃ h, UnpackedFloat.unpack .binary64 b =
      .finite (Sign.ofBitVec (@UnpackedFloat.unpackSign .binary64 b))
        (@UnpackedFloat.unpackMantissa .binary64 b).toNat (-1074) h
  := by
  fun_cases UnpackedFloat.unpack with
  | case1 _ _ _ _ h => cases hlowest.symm.trans h
  | case2 _ _ h => cases hlowest.symm.trans h
  | case3 => exact .inl rfl
  | case4 _ _ exponent =>
    have hexponent : exponent + 1 = -1074 := by
      have hvalue : exponent = (@UnpackedFloat.unpackExponent .binary64 b).toNat - 1075 := rfl
      rw [hvalue, hlowest]
      rfl
    rename_i hpos
    rw [hexponent]
    exact .inr ⟨_, rfl⟩
  | case5 _ _ _ _ _ _ h => cases h hlowest

variable {m : Nat} {e : Int}

/-- A double with all bits of the mantissa is packed without loss, unless it is too large. -/
theorem unpack_pack_finite (s : Sign) (h : 0 < m) (hlow : 2 ^ 52 ≤ m) (hhigh : m < 2 ^ 53)
    (he : -52 ≤ e) (he' : e ≤ 971) :
  UnpackedFloat.unpack .binary64 (UnpackedFloat.pack .binary64 (.finite s m e h)) = .finite s m e h
  := by
  have hlog : m.log2 = 52 := (Nat.log2_eq_iff (by omega)).mpr ⟨hlow, hhigh⟩
  have hbiased : (e + Format.binary64.exponentBias + (52 : Nat)).toNat = (e + 1075).toNat := by
    change (e + 1023 + 52).toNat = _
    omega
  have hroom : ¬2 ^ 11 ≤ (e + 1075).toNat + 1 := by omega
  have hbits : (BitVec.ofNat 11 (e + 1075).toNat).toNat = (e + 1075).toNat := by
    rw [BitVec.toNat_ofNat]
    omega
  have hmantissa : (BitVec.ofNat 52 m).toNat = m - 2 ^ 52 := by
    rw [BitVec.toNat_ofNat]
    omega
  rw [UnpackedFloat.pack]
  dsimp only
  have hfull : 52 + 1 = Format.binary64.mantissaBits := rfl
  rw [hbiased, if_neg hroom, hlog, if_pos hfull]
  obtain ⟨h', hunpack⟩ := unpack_of_normal
    (b := UnpackedFloat.packComponents .binary64 s (BitVec.ofNat 11 (e + 1075).toNat)
      (BitVec.ofNat 52 m))
    (by
      rw [UnpackedFloat.unpackExponent_packComponents]
      intro hlowest
      rw [hlowest] at hbits
      change 0 = _ at hbits
      omega)
    (by
      rw [UnpackedFloat.unpackExponent_packComponents]
      intro hhighest
      rw [hhighest] at hbits
      change 2047 = _ at hbits
      omega)
  rw [hunpack, UnpackedFloat.finite.injEq, UnpackedFloat.unpackSign_packComponents,
    UnpackedFloat.unpackMantissa_packComponents, UnpackedFloat.unpackExponent_packComponents, hbits]
  refine ⟨Sign.ofBitVec_toBitVec s, ?_, ?_⟩
  · rw [hmantissa]
    omega
  · omega

theorem unpack_pack_overflow (s : Sign) (h : 0 < m) (he : 971 < e) :
  UnpackedFloat.unpack .binary64 (UnpackedFloat.pack .binary64 (.finite s m e h)) = .infinity s
  := by
  have hbiased : (e + Format.binary64.exponentBias + (52 : Nat)).toNat = (e + 1075).toNat := by
    change (e + 1023 + 52).toNat = _
    omega
  have hroom : 2 ^ 11 ≤ (e + 1075).toNat + 1 := by omega
  rw [UnpackedFloat.pack]
  dsimp only
  rw [hbiased, if_pos hroom]
  exact unpack_pack_of_not_isFinite (f := .infinity s) rfl

end Packing

/-- The double is infinity, or a number with all bits of the mantissa that is at least one. -/
def AtLeastOne (x : Float) : Prop :=
  x.toModel.unpack = .infinity .positive ∨
    ∃ m e h, x.toModel.unpack = .finite .positive m e h ∧ 2 ^ 52 ≤ m ∧ m < 2 ^ 53 ∧ -52 ≤ e

section AtLeastOne

variable {x y : Float} {m : Nat} {e : Int}

theorem AtLeastOne.unsigned (h : AtLeastOne x) :
  Unsigned x
  := by
  rw [Unsigned]
  obtain hx | ⟨m, e, hm, hx, -⟩ := h
  · rw [hx]
    rfl
  · rw [hx]
    rfl

/-- What is at least one is not zero. -/
theorem AtLeastOne.isZero_eq_false (h : AtLeastOne x) :
  Scalar.isZero x = false
  := by
  have hequal : Scalar.isZero x = UnpackedFloat.beq x.toModel.unpack (.zero .positive) := rfl
  rw [hequal]
  obtain hx | ⟨m, e, hm, hx, -⟩ := h
  · rw [hx]
    rfl
  · rw [hx]
    rfl

/-- What is packed from a number that is at least one is at least one. -/
theorem atLeastOne_of_pack (h : 0 < m) (hlow : 2 ^ 52 ≤ m) (hhigh : m < 2 ^ 53) (he : -52 ≤ e)
    (hx : x.toModel.unpack =
      UnpackedFloat.unpack .binary64 (UnpackedFloat.pack .binary64 (.finite .positive m e h))) :
  AtLeastOne x
  := by
  by_cases he' : e ≤ 971
  · rw [unpack_pack_finite .positive h hlow hhigh he he'] at hx
    exact .inr ⟨m, e, h, hx, hlow, hhigh, he⟩
  · rw [unpack_pack_overflow .positive h (by omega)] at hx
    exact .inl hx

/-- Rounding keeps a number at least one. -/
theorem atLeastOne_of_roundWithAccuracy {a : UnpackedFloat.Accuracy} (hm : 2 ^ 52 ≤ m)
    (he : 0 ≤ m.log2 + e)
    (hx : x.toModel.unpack = UnpackedFloat.unpack .binary64
      (UnpackedFloat.pack .binary64 (UnpackedFloat.roundWithAccuracy .binary64 .positive m e a))) :
  AtLeastOne x
  := by
  obtain ⟨n, d, h, hround, hlow, hhigh, hd, -⟩ := exists_roundWithAccuracy .positive hm he a
  rw [hround] at hx
  exact atLeastOne_of_pack h hlow hhigh (by omega) hx

/-- A product of doubles that are at least one is at least one. -/
theorem AtLeastOne.mul (hx : AtLeastOne x) (hy : AtLeastOne y) :
  AtLeastOne (x * y)
  := by
  have hinfinity (h : UnpackedFloat.mul .binary64 x.toModel.unpack y.toModel.unpack =
    .infinity .positive) :
      AtLeastOne (x * y) := by
    apply Or.inl
    rw [unpack_mul, h]
    rfl
  obtain hx | ⟨m, e, hm, hx, hlow, -, he⟩ := hx
  · obtain hy | ⟨n, d, hn, hy, -⟩ := hy
    · apply hinfinity
      rw [hx, hy]
      rfl
    · apply hinfinity
      rw [hx, hy]
      rfl
  · obtain hy | ⟨n, d, hn, hy, hlow', -, hd⟩ := hy
    · apply hinfinity
      rw [hx, hy]
      rfl
    · have hproduct : 2 ^ 52 * 2 ^ 52 ≤ m * n := Nat.mul_le_mul hlow hlow'
      have hlog : 104 ≤ (m * n).log2 := (Nat.le_log2 (by omega)).mpr hproduct
      have hunpack := unpack_mul x y
      rw [hx, hy] at hunpack
      exact atLeastOne_of_roundWithAccuracy (m := m * n) (e := e + d) (a := .exact) (by omega)
        (by omega) hunpack

/-- Divided by one, what is at least one stays so. -/
theorem AtLeastOne.div_one (hx : AtLeastOne x) :
  AtLeastOne (x / Float.ofInt 1)
  := by
  have hone : (Float.ofInt 1).toModel.unpack = .finite .positive (2 ^ 52) (-52) (by decide) := rfl
  have hunpack : (x / Float.ofInt 1).toModel.unpack = UnpackedFloat.unpack .binary64
      (UnpackedFloat.pack .binary64 (UnpackedFloat.div .binary64 x.toModel.unpack
        (Float.ofInt 1).toModel.unpack)) := rfl
  rw [hone] at hunpack
  obtain hx | ⟨m, e, hm, hx, hlow, hhigh, he⟩ := hx
  · rw [hx] at hunpack
    exact .inl hunpack
  · have hlog : m.log2 = 52 := (Nat.log2_eq_iff (by omega)).mpr ⟨hlow, hhigh⟩
    have htarget : min (e - -52) (Format.targetExponent .binary64
        (totalExponent m e - totalExponent (2 ^ 52) (-52))) = e - 1 := by
      rw [Format.targetExponent, totalExponent, totalExponent, hlog]
      change min (e - -52) (max (((52 : Nat) : Int) + 1 + e - 1 - 53) (-1074)) = _
      omega
    have hshift : (e - -52 - (e - 1)).toNat = 53 := by omega
    have hquotient : m <<< 53 / 2 ^ 52 = 2 * m := by
      rw [Nat.shiftLeft_eq]
      omega
    have hexact : m <<< 53 % 2 ^ 52 = 0 := by
      rw [Nat.shiftLeft_eq]
      omega
    rw [hx, UnpackedFloat.div, UnpackedFloat.divCore, htarget, hshift, hquotient, hexact] at hunpack
    have hlog' : (2 * m).log2 = 53 := by
      rw [Nat.log2_two_mul (by omega), hlog]
    exact atLeastOne_of_roundWithAccuracy (by omega) (by omega) hunpack

end AtLeastOne

section Bits

variable {b : Nat}

/-- The bits of one. -/
def oneBits : Nat := 1023 * leadingBit

theorem toNat_toUInt64 (hb : b ≤ infinityBits) :
  b.toUInt64.toNat = b
  := by
  have hinfinity : infinityBits < 2 ^ 64 := by decide
  exact Nat.mod_eq_of_lt (Nat.lt_of_le_of_lt hb hinfinity)

/-- Bits below those of infinity are those of the double that they unpack to. -/
theorem unpack_ofBits (hb : b < infinityBits) :
  (Float.ofBits b.toUInt64).toModel.unpack = UnpackedFloat.unpack .binary64 b.toUInt64.toBitVec ∧
    (@UnpackedFloat.unpackExponent .binary64 b.toUInt64.toBitVec).toNat = b / 2 ^ 52 ∧
    (@UnpackedFloat.unpackMantissa .binary64 b.toUInt64.toBitVec).toNat = b % 2 ^ 52 ∧
    Sign.ofBitVec (@UnpackedFloat.unpackSign .binary64 b.toUInt64.toBitVec) = .positive
  := by
  have hinfinity : infinityBits = 2047 * 2 ^ 52 := rfl
  have htoNat := toNat_toUInt64 hb.le
  have hexponent : (@UnpackedFloat.unpackExponent .binary64 b.toUInt64.toBitVec).toNat =
      b / 2 ^ 52 := by
    rw [toNat_unpackExponent, htoNat]
    omega
  refine ⟨?_, hexponent, ?_, ?_⟩
  · change UnpackedFloat.unpack .binary64
      (UnpackedFloat.pack .binary64 (UnpackedFloat.unpack .binary64 b.toUInt64.toBitVec)) = _
    rw [UnpackedFloat.pack_unpack, if_neg]
    rw [UnpackedFloat.isNaNBits, decide_eq_true_eq]
    intro hundefined
    have hones := congrArg BitVec.toNat hundefined.1
    change _ = 2047 at hones
    omega
  · rw [toNat_unpackMantissa, htoNat]
  · rw [unpackSign_of_lt (by omega)]
    rfl

/-- Bits between those of one and those of infinity make a double that is at least one. -/
theorem atLeastOne_ofBits (hlow : oneBits ≤ b) (hhigh : b ≤ infinityBits) :
  AtLeastOne (Float.ofBits b.toUInt64)
  := by
  obtain rfl | hlt := Nat.eq_or_lt_of_le hhigh
  · exact .inl rfl
  · obtain ⟨hunpack, hexponent, hmantissa, hsign⟩ := unpack_ofBits hlt
    have hone : oneBits = 1023 * 2 ^ 52 := rfl
    have hinfinity : infinityBits = 2047 * 2 ^ 52 := rfl
    obtain ⟨h, hnormal⟩ := unpack_of_normal (b := b.toUInt64.toBitVec)
      (by
        intro hlowest
        rw [hlowest] at hexponent
        change 0 = _ at hexponent
        omega)
      (by
        intro hhighest
        rw [hhighest] at hexponent
        change 2047 = _ at hexponent
        omega)
    rw [hsign] at hnormal
    refine .inr ⟨_, _, h, hunpack.trans hnormal, ?_, ?_, ?_⟩
    · omega
    · omega
    · omega

/-- Bits up to those of one make zero, or a number that is at most one. -/
theorem unpack_ofBits_of_le_one (hb : b ≤ oneBits) :
  (Float.ofBits b.toUInt64).toModel.unpack = .zero .positive ∨
    ∃ n d h, (Float.ofBits b.toUInt64).toModel.unpack = .finite .positive n d h ∧
      n ≤ 2 ^ (-d).toNat ∧ d ≤ -52
  := by
  have hone : oneBits = 1023 * 2 ^ 52 := rfl
  have hinfinity : infinityBits = 2047 * 2 ^ 52 := rfl
  obtain ⟨hunpack, hexponent, hmantissa, hsign⟩ := unpack_ofBits (b := b) (by omega)
  rw [hunpack]
  by_cases hlowest : @UnpackedFloat.unpackExponent .binary64 b.toUInt64.toBitVec = 0#11
  · have hsubnormal := unpack_of_subnormal hlowest
    rw [hsign] at hsubnormal
    apply hsubnormal.imp_right
    rintro ⟨h, hfinite⟩
    refine ⟨_, _, h, hfinite, ?_, by decide⟩
    have hlt : b % 2 ^ 52 < 2 ^ 52 := Nat.mod_lt _ (Nat.two_pow_pos 52)
    rw [hmantissa]
    apply hlt.le.trans (Nat.pow_le_pow_right (by decide) (by decide))
  · have hhighest : @UnpackedFloat.unpackExponent .binary64 b.toUInt64.toBitVec ≠ -1#11 := by
      intro hhighest
      rw [hhighest] at hexponent
      change 2047 = _ at hexponent
      omega
    obtain ⟨h, hnormal⟩ := unpack_of_normal hlowest hhighest
    rw [hsign, hexponent] at hnormal
    refine .inr ⟨_, _, h, hnormal, ?_, by omega⟩
    rw [hmantissa]
    by_cases hlast : b / 2 ^ 52 = 1023
    · have hnone : b % 2 ^ 52 = 0 := by omega
      rw [hlast, hnone]
      decide
    · have hplaces : 53 ≤ (-(((b / 2 ^ 52 : Nat) : Int) - 1075)).toNat := by omega
      have hlt : 2 ^ 52 + b % 2 ^ 52 ≤ 2 ^ 53 := by omega
      apply hlt.trans (Nat.pow_le_pow_right (by decide) hplaces)

/-- Less than one is taken away from two, and a number is left that is at least one. -/
theorem atLeastOne_two_sub (hb : b ≤ oneBits) :
  AtLeastOne (Float.ofInt 2 - Float.ofBits b.toUInt64) ∧
    IsNumber (Float.ofInt 2 - Float.ofBits b.toUInt64)
  := by
  have htwo : (Float.ofInt 2).toModel.unpack = .finite .positive (2 ^ 52) (-51) (by decide) := rfl
  have hunpack : (Float.ofInt 2 - Float.ofBits b.toUInt64).toModel.unpack =
      UnpackedFloat.unpack .binary64
        (UnpackedFloat.pack .binary64 (UnpackedFloat.sub .binary64 (Float.ofInt 2).toModel.unpack
        (Float.ofBits b.toUInt64).toModel.unpack)) := rfl
  rw [htwo] at hunpack
  rw [isNumber_iff]
  obtain hzero | ⟨n, d, h, hfinite, hle, hd⟩ := unpack_ofBits_of_le_one hb
  · rw [hzero] at hunpack
    have htwo' := hunpack.trans
      (unpack_pack_finite .positive (by decide) (by decide) (by decide) (by decide) (by decide))
    rw [htwo']
    exact ⟨.inr ⟨_, _, _, htwo', by decide, by decide, by decide⟩, rfl⟩
  · obtain ⟨j, hj⟩ : ∃ j, j = (-d).toNat := ⟨_, rfl⟩
    rw [← hj] at hle
    have hpow : 2 ^ 52 <<< (-51 - d).toNat = 2 ^ (j + 1) := by
      rw [Nat.shiftLeft_eq, ← Nat.pow_add]
      congr 1
      omega
    have hlog : (2 ^ (j + 1) - n).log2 = j := by
      rw [Nat.log2_eq_iff]
      · omega
      · omega
    have hsub : UnpackedFloat.sub .binary64 (.finite .positive (2 ^ 52) (-51) (by decide))
        (.finite .positive n d h) =
          UnpackedFloat.round .binary64 .positive (2 ^ (j + 1) - n) d := by
      have hmin : min (-51) d = d := by omega
      have hsame : n <<< (d - d).toNat = n := by
        rw [Int.sub_self]
        rfl
      have hdifference : Sign.positive.apply (2 ^ (j + 1) : Nat) - Sign.positive.apply n =
          (2 ^ (j + 1) - n : Nat) := by
        rw [Int.ofNat_sub (by omega)]
        rfl
      rw [UnpackedFloat.sub]
      dsimp only
      rw [hmin, UnpackedFloat.decreaseExponent, UnpackedFloat.decreaseExponent, hpow, hsame]
      dsimp only
      rw [hdifference, normalize_natCast (by omega)]
    obtain ⟨m, e, hm, hround, hlow, hhigh, hle', hge⟩ :=
      exists_round .positive (m := 2 ^ (j + 1) - n) (e := d) (by omega) (by omega)
    rw [hfinite, hsub, hround,
      unpack_pack_finite .positive hm hlow hhigh (by omega) (by omega)] at hunpack
    rw [hunpack]
    exact ⟨.inr ⟨m, e, hm, hunpack, hlow, hhigh, by omega⟩, rfl⟩

end Bits

section Ratio

/-- A quotient that is at least an integer is not rounded below it. -/
theorem le_roundRatio {n c : Int} {d : Nat} (hd : 0 < d) (h : c * d ≤ n) :
  c ≤ roundRatio n d
  := by
  have hfloor : c ≤ n.fdiv d := by
    rw [Int.fdiv_eq_ediv_of_nonneg _ (Int.natCast_nonneg d)]
    exact (Int.le_ediv_iff_mul_le (by omega)).mpr h
  rw [roundRatio]
  split
  · exact hfloor
  · split
    · exact hfloor
    · omega

/-- A quotient that is at most an integer is not rounded above it. -/
theorem roundRatio_le {n c : Int} {d : Nat} (hd : 0 < d) (h : n ≤ c * d) :
  roundRatio n d ≤ c
  := by
  have hfloor : n.fdiv d ≤ c := by
    rw [Int.fdiv_eq_ediv_of_nonneg _ (Int.natCast_nonneg d)]
    apply Int.ediv_le_of_le_mul (by omega) h
  rw [roundRatio]
  obtain heq | hlt := hfloor.eq_or_lt
  · have hrest : n.fmod d = 0 := by
      have hsplit := Int.fmod_add_mul_fdiv n d
      have hnonneg := Int.fmod_nonneg_of_pos n (Int.natCast_pos.mpr hd)
      rw [heq, Int.mul_comm] at hsplit
      omega
    rw [hrest, if_pos (by omega)]
    exact hfloor
  · split
    · exact hfloor
    · split
      · exact hfloor
      · exact hlt

/-- The double nearest to a positive integer is at least one. -/
theorem atLeastOne_ofRatio_one {n : Nat} (hn : n ≠ 0) :
  AtLeastOne (ofRatio n 1)
  := by
  rw [ofRatio, if_neg hn]
  extract_lets guess scaled
  have hguess : guess = (n.log2 : Int) - 52 := by
    have hone : Nat.log2 1 = 0 := rfl
    simp only [guess, hone]
    omega
  have hlow := Nat.log2_self_le hn
  obtain ⟨a, b, hab, hb, hle⟩ : ∃ a b, scaled guess = (a, b) ∧ 0 < b ∧ leadingBit * b ≤ a := by
    by_cases hnonneg : 0 ≤ guess
    · refine ⟨_, _, if_pos hnonneg, Nat.mul_pos Nat.one_pos (Nat.two_pow_pos _), ?_⟩
      have hplaces : 52 + guess.toNat = n.log2 := by omega
      rw [Nat.one_mul]
      calc leadingBit * 2 ^ guess.toNat = 2 ^ (52 + guess.toNat) := (Nat.pow_add 2 52 _).symm
        _ = 2 ^ n.log2 := by rw [hplaces]
        _ ≤ n := hlow
    · refine ⟨_, _, if_neg hnonneg, Nat.one_pos, ?_⟩
      have hplaces : n.log2 + (-guess).toNat = 52 := by omega
      rw [Nat.mul_one]
      calc leadingBit = 2 ^ (n.log2 + (-guess).toNat) := by rw [hplaces]; rfl
        _ = 2 ^ n.log2 * 2 ^ (-guess).toNat := Nat.pow_add 2 _ _
        _ ≤ n * 2 ^ (-guess).toNat := Nat.mul_le_mul_right _ hlow
  have hquotient : leadingBit ≤ a / b := (Nat.le_div_iff_mul_le hb).mpr hle
  have hmax : max guess leastExponent = guess := by
    rw [leastExponent]
    omega
  rw [hab]
  dsimp only
  rw [if_neg (Nat.not_lt.mpr hquotient), hmax, hab]
  dsimp only
  have hsignificand : (leadingBit : Int) ≤ roundRatio a b := by
    apply le_roundRatio hb
    exact Int.ofNat_le.mpr hle
  have hexponent : 1022 ≤ (guess - leastExponent).toNat := by
    rw [leastExponent]
    omega
  have hproduct := Nat.mul_le_mul_right leadingBit hexponent
  apply atLeastOne_ofBits
  · apply Nat.le_min.mpr
    refine ⟨?_, by decide⟩
    rw [oneBits]
    omega
  · apply Nat.min_le_right

/-- The bits of a power of two that is at most one. -/
theorem exists_ofRatio_two_pow {n : Nat} (hn : n ≤ 1074) :
  ∃ b, b ≤ oneBits ∧ ofRatio 1 (Nat.pow 2 n) = Float.ofBits b.toUInt64
  := by
  have hlog : (Nat.pow 2 n).log2 = n := Nat.log2_two_pow
  rw [ofRatio, if_neg (by decide)]
  extract_lets guess scaled
  have hguess : guess = -(n : Int) - 52 := by
    have hone : Nat.log2 1 = 0 := rfl
    simp only [guess, hlog, hone]
    omega
  have hscaled {e : Int} (he : e < 0) : scaled e = (1 * Nat.pow 2 (-e).toNat, Nat.pow 2 n) :=
    if_neg (Int.not_le.mpr he)
  have hleading : 1 * Nat.pow 2 (-guess).toNat / Nat.pow 2 n = leadingBit := by
    have hexponent : (-guess).toNat = 52 + n := by omega
    rw [hexponent, Nat.one_mul]
    exact Nat.div_eq_of_eq_mul_left (Nat.two_pow_pos n) (Nat.pow_add 2 52 n)
  rw [hscaled (e := guess) (by omega)]
  dsimp only
  rw [hleading, if_neg (Nat.lt_irrefl _)]
  have hexponent : max guess leastExponent < 0 ∧
      (max guess leastExponent - leastExponent).toNat ≤ 1022 := by
    rw [leastExponent]
    omega
  rw [hscaled hexponent.1]
  dsimp only
  refine ⟨_, ?_, rfl⟩
  have hround : roundRatio (1 * Nat.pow 2 (-max guess leastExponent).toNat : Nat) (Nat.pow 2 n) ≤
      leadingBit := by
    apply roundRatio_le (Nat.two_pow_pos n)
    apply Int.ofNat_le.mpr
    rw [Nat.one_mul]
    apply (Nat.pow_le_pow_right (by decide) _).trans (Nat.pow_add 2 52 n).le
    omega
  have hproduct := Nat.mul_le_mul_right leadingBit hexponent.2
  apply (Nat.min_le_left _ _).trans
  rw [oneBits]
  omega

/-- A power of two that is at most one is taken away from two, and a number is left that is at least
one. -/
theorem atLeastOne_two_sub_powerOfTwo (n : Nat) :
  AtLeastOne (Float.ofInt 2 - powerOfTwo (-(n : Int))) ∧
    IsNumber (Float.ofInt 2 - powerOfTwo (-(n : Int)))
  := by
  have hbits : ∃ b, b ≤ oneBits ∧ powerOfTwo (-(n : Int)) = Float.ofBits b.toUInt64 := by
    rw [powerOfTwo, if_neg (by omega)]
    split
    · exact ⟨0, by decide, rfl⟩
    · have hn : n ≤ 1074 := by
        rename_i hle
        rw [leastExponent] at hle
        omega
      obtain ⟨b, hb, hratio⟩ := exists_ofRatio_two_pow hn
      use b, hb
      split
      · obtain rfl : n = 0 := by omega
        exact hratio
      · rw [Int.neg_neg, Int.toNat_natCast, hratio]
  obtain ⟨b, hb, hpower⟩ := hbits
  rw [hpower]
  apply atLeastOne_two_sub hb

/-- The double of a positive whole numeral is at least one. -/
theorem atLeastOne_ofNumeral {n : Nat} (hn : n ≠ 0) :
  AtLeastOne (ofNumeral (.finite false n 0))
  := by
  have hraised : n * Nat.pow 10 (Int.toNat 0) = n := Nat.mul_one n
  rw [ofNumeral, if_neg Bool.false_ne_true, if_neg (by rw [orderBound]; omega)]
  split
  · exact .inl rfl
  · rw [if_pos (Int.le_refl 0), hraised]
    apply atLeastOne_ofRatio_one hn

end Ratio

section Zero

variable {x y : Float}

/-- Zero divided by what is at least one is zero. -/
theorem zero_div (hy : AtLeastOne y) :
  Float.ofInt 0 / y = Float.ofInt 0
  := by
  have hzero : (Float.ofInt 0).toModel.unpack = .zero .positive := rfl
  change Float.ofModel (Float.Model.pack (UnpackedFloat.div .binary64 (Float.ofInt 0).toModel.unpack
    y.toModel.unpack)) = _
  rw [hzero]
  obtain hy | ⟨m, e, hm, hy, -⟩ := hy
  · rw [hy]
    rfl
  · rw [hy]
    rfl

/-- Zero times a number that is at least one is zero. -/
theorem zero_mul (hy : AtLeastOne y) (hnumber : IsNumber y) :
  Float.ofInt 0 * y = Float.ofInt 0
  := by
  have hzero : (Float.ofInt 0).toModel.unpack = .zero .positive := rfl
  rw [isNumber_iff] at hnumber
  change Float.ofModel (Float.Model.pack (UnpackedFloat.mul .binary64 (Float.ofInt 0).toModel.unpack
    y.toModel.unpack)) = _
  rw [hzero]
  obtain hy | ⟨m, e, hm, hy, -⟩ := hy
  · rw [hy] at hnumber
    cases hnumber
  · rw [hy]
    rfl

end Zero

end Tunescript.Binary64
