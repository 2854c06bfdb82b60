import Tunescript.Number.Binary64

/-!
# Scalars

The arithmetic in which times, note lengths and widths are computed.  Everything that only
adds, multiplies, divides and compares such quantities is stated over a scalar type, so that
it can be run on doubles and reasoned about on rational numbers, where the same steps are
exact.
-/

namespace Tunescript

/-- A type of quantities with arithmetic, comparison and conversion from and to integers. -/
class Scalar (α : Type) extends Add α, Sub α, Mul α, Div α where
  /-- The quantity of an integer. -/
  ofInt : Int → α
  /-- The quantity of an integer, a fault if that lies beyond the largest one. -/
  ofBoundedInt : Int → Except ArithmeticFault α
  /-- The quantity that a numeral writes, if the type has it. -/
  ofNumeral? : Numeral → Option α
  /-- The quantity `2 ^ (-n)`. -/
  halving : Nat → α
  /-- Whether one quantity is less than another. -/
  less : α → α → Bool
  /-- Whether two quantities are equal. -/
  equal : α → α → Bool
  /-- The integer part of a quantity, towards zero. -/
  truncate : α → Except ArithmeticFault Int
  /-- The least integer that is not below a quantity. -/
  ceiling : α → Except ArithmeticFault Int

namespace Scalar

variable {α : Type} [Scalar α]

/-- The quantity zero. -/
def zero : α := ofInt 0

/-- Whether a quantity is zero. -/
def isZero (x : α) : Bool := equal x zero

/-- Whether one quantity is at most another. -/
def atMost (x y : α) : Bool := less x y || equal x y

/-- The distance between two quantities. -/
def distance (x y : α) : α :=
  if less (x - y) zero then y - x else x - y

/-- The sum of quantities from left to right. -/
def sum (xs : List α) : α := xs.foldl (· + ·) zero

/-- The quantity of a fraction of integers. -/
def fraction (n : Int) (d : Nat) : α := ofInt n / ofInt d

end Scalar

/-- Doubles as scalars: every operation rounds to the nearest double. -/
instance : Scalar Float where
  add := Float.add
  sub := Float.sub
  mul := Float.mul
  div := Float.div
  ofInt := Float.ofInt
  ofBoundedInt := fun n =>
    if Binary64.integerBound ≤ n.natAbs then .error .integerTooLarge else .ok (Float.ofInt n)
  ofNumeral? := fun n => some (Binary64.ofNumeral n)
  halving := fun n => Binary64.powerOfTwo (-(n : Int))
  less := Float.lt
  equal := Float.beq
  truncate := Binary64.truncate
  ceiling := Binary64.ceiling

/-- The rational number that a finite numeral writes. -/
def Numeral.toRat? : Numeral → Option Rat
  | .finite negative digits exponent =>
    let n : Int := if negative then -(digits : Int) else digits
    if 0 ≤ exponent then some (mkRat (n * (Nat.pow 10 exponent.toNat : Nat)) 1)
    else some (mkRat n (Nat.pow 10 (-exponent).toNat))
  | _ => none

/-- Rational numbers as scalars: every operation is exact. -/
instance : Scalar Rat where
  add := Rat.add
  sub := Rat.sub
  mul := Rat.mul
  div := Rat.div
  ofInt := Rat.ofInt
  ofBoundedInt := fun n => .ok (Rat.ofInt n)
  ofNumeral? := Numeral.toRat?
  halving := fun n => mkRat 1 (Nat.pow 2 n)
  less := Rat.blt
  equal := fun x y => x.num == y.num && x.den == y.den
  truncate := fun x => .ok (x.num.tdiv x.den)
  ceiling := fun x => .ok (-((-x.num).fdiv x.den))

end Tunescript
