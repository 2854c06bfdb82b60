import Tunescript.Number.Fault
import Tunescript.Number.Numeral

/-!
# Double-precision numbers

A finite double is an integer times a power of two.  `Binary64.decode` gives that form, and
the roundings to integers, the doubles nearest to a fraction, to a power of two and to a
numeral, and the binary logarithm are computed from it in exact integer arithmetic.
-/

namespace Tunescript

/-- The value of a double: `significand * 2 ^ exponent`, infinite, or undefined. -/
inductive Binary64 where
  /-- The value `significand * 2 ^ exponent`. -/
  | finite (significand : Int) (exponent : Int)
  /-- Infinity with a sign. -/
  | infinite (negative : Bool)
  /-- No value. -/
  | undefined
deriving DecidableEq, Repr

namespace Binary64

/-- The weight of the implicit leading bit of a significand. -/
def leadingBit : Nat := Nat.pow 2 52

/-- The exponent of the smallest positive double. -/
def leastExponent : Int := -1074

/-- The bits of the double infinity. -/
def infinityBits : Nat := 0x7ff * leadingBit

/-- The least integer that rounds to infinity: half a unit above the largest finite double. -/
def integerBound : Nat := Nat.pow 2 1024 - Nat.pow 2 970

/-- The value of a double. -/
def decode (x : Float) : Binary64 :=
  let bits := x.toBits.toNat
  let negative := Nat.pow 2 63 ≤ bits
  let field := bits / leadingBit % 2048
  let fraction := bits % leadingBit
  if field = 2047 then
    if fraction = 0 then .infinite negative else .undefined
  else
    let magnitude := if field = 0 then fraction else leadingBit + fraction
    let exponent := leastExponent + ((max field 1 : Nat) : Int) - 1
    .finite (if negative then -(magnitude : Int) else magnitude) exponent

/-- The integer nearest to `n / d`, the even one of two that are equally near. -/
def roundRatio (n : Int) (d : Nat) : Int :=
  let q := n.fdiv d
  let r := n.fmod d
  if 2 * r < d then q
  else if 2 * r = d ∧ q % 2 = 0 then q
  else q + 1

/-- The numerator and the denominator of `significand * 2 ^ exponent`. -/
def ratio (significand exponent : Int) : Int × Nat :=
  if 0 ≤ exponent then (significand * (Nat.pow 2 exponent.toNat : Nat), 1)
  else (significand, Nat.pow 2 (-exponent).toNat)

/-- The integer that a rounding of fractions gives for a double. -/
def toIntWith (rounding : Int → Nat → Int) (x : Float) : Except ArithmeticFault Int :=
  match decode x with
  | .finite m e =>
    let (n, d) := ratio m e
    .ok (rounding n d)
  | .infinite _ => .error .infinite
  | .undefined => .error .undefined

/-- The integer part of a double, towards zero. -/
def truncate (x : Float) : Except ArithmeticFault Int :=
  toIntWith (fun n d => n.tdiv d) x

/-- The least integer that is not below a double. -/
def ceiling (x : Float) : Except ArithmeticFault Int :=
  toIntWith (fun n d => -((-n).fdiv d)) x

/-- The integer nearest to a double, the even one of two that are equally near. -/
def nearestInt (x : Float) : Except ArithmeticFault Int :=
  toIntWith roundRatio x

/-- The double nearest to the fraction `n / d`, infinity beyond the largest one. -/
def ofRatio (n d : Nat) : Float :=
  if n = 0 then 0.0
  else
    let guess : Int := (n.log2 : Int) - (d.log2 : Int) - 52
    let scaled (e : Int) : Nat × Nat :=
      if 0 ≤ e then (n, d * Nat.pow 2 e.toNat) else (n * Nat.pow 2 (-e).toNat, d)
    let (a, b) := scaled guess
    let exponent := max (if a / b < leadingBit then guess - 1 else guess) leastExponent
    let (a, b) := scaled exponent
    let significand := (roundRatio a b).toNat
    let bits := (exponent - leastExponent).toNat * leadingBit + significand
    Float.ofBits (min bits infinityBits).toUInt64

/-- The double nearest to the quotient of a number by a signed one, rounded once. -/
def ofQuotient (n : Nat) (d : Int) : Float :=
  let magnitude := ofRatio n d.natAbs
  if d < 0 then -magnitude else magnitude

/-- The double nearest to `2 ^ n`, infinity beyond the largest one. -/
def powerOfTwo (n : Int) : Float :=
  if 1023 < n then Float.ofBits infinityBits.toUInt64
  else if n < leastExponent then 0.0
  else if 0 ≤ n then ofRatio (Nat.pow 2 n.toNat) 1
  else ofRatio 1 (Nat.pow 2 (-n).toNat)

/-- The bound on the decimal order beyond which every numeral is infinite or zero. -/
def orderBound : Int := 400

/-- The double nearest to a numeral. -/
def ofNumeral : Numeral → Float
  | .finite negative digits exponent =>
    let order := (digits.log2 * 30103 / 100000 : Nat) + exponent
    let magnitude :=
      if digits = 0 ∨ order < -orderBound then 0.0
      else if orderBound < order then Float.ofBits infinityBits.toUInt64
      else if 0 ≤ exponent then ofRatio (digits * Nat.pow 10 exponent.toNat) 1
      else ofRatio digits (Nat.pow 10 (-exponent).toNat)
    if negative then -magnitude else magnitude
  | .infinite negative =>
    let infinity := Float.ofBits infinityBits.toUInt64
    if negative then -infinity else infinity
  | .undefined => 0.0 / 0.0

/-- The number of binary places to which a logarithm is computed before it is rounded. -/
def logarithmPlaces : Nat := 160

/-- The first `places` binary digits of the logarithm of `x / 2 ^ precision`, a number from
one up to two, as an integer. -/
def logarithmDigits (precision : Nat) : (places : Nat) → (x : Nat) → (found : Nat) → Nat
  | 0, _, found => found
  | places + 1, x, found =>
    let square := x * x / Nat.pow 2 precision
    if square < Nat.pow 2 (precision + 1) then logarithmDigits precision places square (found * 2)
    else logarithmDigits precision places (square / 2) (found * 2 + 1)

/-- The double nearest to the binary logarithm of a positive double. -/
def logarithm (x : Float) : Except ArithmeticFault Float :=
  match decode x with
  | .finite m e =>
    if m ≤ 0 then .error .logarithmDomain
    else
      let order := m.toNat.log2
      let precision := 2 * logarithmPlaces
      let scale := Nat.pow 2 logarithmPlaces
      let normal := m.toNat * Nat.pow 2 precision / Nat.pow 2 order
      let digits := logarithmDigits precision logarithmPlaces normal 0
      let scaled : Int := (e + order) * scale + digits
      let magnitude := ofRatio scaled.natAbs scale
      .ok (if scaled < 0 then -magnitude else magnitude)
  | .infinite true => .error .logarithmDomain
  | _ => .ok x

end Binary64

end Tunescript
