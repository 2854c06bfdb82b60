import Tunescript.Number.Binary64

/-!
# Decimal texts of doubles

The shortest decimal of a double is the one with the fewest digits among those that round to
it, and of these the nearest; of two equally near ones it is the one whose last digit is even.
It is written in positional notation with a point unless it is very large or very small.  A
fixed decimal has a given number of places, and a half goes to the even neighbour.
-/

namespace Tunescript

/-- A decimal `digits * 10 ^ exponent`. -/
structure Decimal where
  /-- The digits as a number. -/
  digits : Nat
  /-- The power of ten. -/
  exponent : Int
deriving DecidableEq, Repr

namespace Decimal

/-- The number of decimal digits that always tell two doubles apart. -/
def sufficientDigits : Nat := 17

/-- The greatest power of ten that is not above `n / d`, searched upwards from a guess. -/
def order (n d : Nat) : (steps : Nat) → (guess : Int) → Int
  | 0, guess => guess
  | steps + 1, guess =>
    let next := guess + 1
    let above := if 0 ≤ next then d * Nat.pow 10 next.toNat ≤ n
      else d ≤ n * Nat.pow 10 (-next).toNat
    if above then order n d steps next else guess

/-- The decimal with a unit of `10 ^ exponent` that rounds to the double between the given
quarters around `m * 2 ^ (e - 2)`, if there is one. -/
def onGrid? (low middle high : Nat) (closed : Bool) (e exponent : Int) : Option Decimal :=
  let binary : Nat × Nat := if 0 ≤ e then (Nat.pow 2 e.toNat, 1) else (1, Nat.pow 2 (-e).toNat)
  let decimal : Nat × Nat :=
    if 0 ≤ exponent then (Nat.pow 10 exponent.toNat, 1) else (1, Nat.pow 10 (-exponent).toNat)
  let scale := binary.1 * decimal.2
  let unit := decimal.1 * binary.2
  let below := middle * scale / unit
  let fits (k : Nat) : Bool :=
    if closed then low * scale ≤ k * unit && k * unit ≤ high * scale
    else low * scale < k * unit && k * unit < high * scale
  let gapBelow := middle * scale - below * unit
  let gapAbove := (below + 1) * unit - middle * scale
  let lowerFirst := gapBelow < gapAbove || (gapBelow == gapAbove && below % 2 == 0)
  let candidates := if lowerFirst then [below, below + 1] else [below + 1, below]
  (candidates.find? fits).map fun k => ⟨k, exponent⟩

/-- The shortest decimal of the positive double `m * 2 ^ e`. -/
def shortest (m : Nat) (e : Int) : Decimal :=
  let narrow := m == Binary64.leadingBit && Binary64.leastExponent < e
  let low := 4 * m - (if narrow then 1 else 2)
  let high := 4 * m + 2
  let quarter := e - 2
  let (n, d) := Binary64.ratio m e
  let guess := ((n.toNat.log2 : Int) - d.log2 - 1) * 30103 / 100000 - 1
  let top := order n.toNat d 4 guess
  ((List.range sufficientDigits).findSome? fun k : Nat =>
    onGrid? low (4 * m) high (m % 2 == 0) quarter (top - k)).getD ⟨m, 0⟩

/-- The digits of a decimal without zeros at its end, and the place of its point counted
from its first digit. -/
def pointed (x : Decimal) : Text × Int :=
  let ds := (toString x.digits).toList
  (Text.dropEndWhile (· == '0') ds, ds.length + x.exponent)

/-- The points between which a decimal is written in positional notation. -/
def positional (point : Int) : Bool := -4 < point && point ≤ 16

/-- A decimal in text. -/
def write (x : Decimal) : Text :=
  let (ds, point) := pointed x
  if positional point then
    if point ≤ 0 then "0.".toList ++ List.replicate (-point).toNat '0' ++ ds
    else
      let whole := ds.take point.toNat
      let part := ds.drop point.toNat
      whole ++ List.replicate (point.toNat - whole.length) '0' ++ '.' ::
        (if part.isEmpty then ['0'] else part)
  else
    let power := (toString (point - 1).natAbs).toList
    let mantissa := match ds with
      | d :: [] => [d]
      | d :: part => d :: '.' :: part
      | [] => []
    mantissa ++ ['e', if point < 1 then '-' else '+']
      ++ (if power.length < 2 then '0' :: power else power)

/-- The shortest text of a double. -/
def ofFloat (x : Float) : Text :=
  match Binary64.decode x with
  | .undefined => "nan".toList
  | .infinite negative => if negative then "-inf".toList else "inf".toList
  | .finite m e =>
    let sign := if Nat.pow 2 63 ≤ x.toBits.toNat then ['-'] else []
    if m = 0 then sign ++ "0.0".toList else sign ++ write (shortest m.natAbs e)

/-- The text of a finite double with a number of places. -/
def fixed (places : Nat) (x : Float) : Text :=
  match Binary64.decode x with
  | .finite m e =>
    let (n, d) := Binary64.ratio m e
    let scaled := Binary64.roundRatio (n * (Nat.pow 10 places : Nat)) d
    let ds := (toString scaled.natAbs).toList
    let ds := List.replicate (places + 1 - ds.length) '0' ++ ds
    let sign := if scaled < 0 then ['-'] else []
    sign ++ ds.take (ds.length - places) ++ '.' :: ds.drop (ds.length - places)
  | _ => ofFloat x

end Decimal

end Tunescript
