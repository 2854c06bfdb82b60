/-!
# Arithmetic faults

The operations on numbers that have no result for some arguments say why, and so do those
whose result would not fit into memory.  A fault carries its cause only; its wording is given
by `ArithmeticFault.message`.
-/

namespace Tunescript

/-- Why an operation on numbers has no result. -/
inductive ArithmeticFault where
  /-- The integer part of an infinite value was asked for. -/
  | infinite
  /-- The integer part of an undefined value was asked for. -/
  | undefined
  /-- A power of two lies beyond the largest finite value. -/
  | powerTooLarge
  /-- An integer lies beyond the largest finite value. -/
  | integerTooLarge
  /-- The logarithm of a value that is not positive was asked for. -/
  | logarithmDomain
  /-- A length in seconds was asked for at a rate of no samples a second. -/
  | zeroDivisor
  /-- A text would have more characters than can be counted. -/
  | textUncountable
  /-- A text would not fit into memory. -/
  | textTooLong
  /-- A sound would have more samples than can be counted. -/
  | soundUncountable
  /-- A track would have more samples than can be counted. -/
  | trackUncountable
  /-- The samples of a sound or a track would have more bytes than can be counted. -/
  | samplesUncountable
  /-- The given number of samples would not fit into memory. -/
  | samplesTooMany (count : Nat)
deriving DecidableEq, Repr

namespace ArithmeticFault

/-- The integer nearest to `n / d`, the even one of two that are equally near. -/
def nearest (n d : Nat) : Nat :=
  let q := n / d
  let r := n % d
  if 2 * r < d ∨ (2 * r = d ∧ q % 2 = 0) then q else q + 1

/-- The units of memory, each 1024 times the one before it. -/
def memoryUnits : List String := ["bytes", "KiB", "MiB", "GiB", "TiB", "PiB", "EiB"]

/-- The fraction `n / d` with three digits, or as an integer if it has more. -/
def threeDigits (n d : Nat) : String :=
  let hundredths := nearest (100 * n) d
  let tenths := nearest (10 * n) d
  if hundredths < 1000 then
    toString (hundredths / 100) ++ "." ++ toString (hundredths / 10 % 10)
      ++ toString (hundredths % 10)
  else if tenths < 1000 then toString (tenths / 10) ++ "." ++ toString (tenths % 10)
  else toString (nearest n d) ++ "."

/-- A number of bytes in the largest unit of which there is one. -/
def memoryText (bytes : Nat) : String :=
  let order := bytes.log2 / 10
  let order := if nearest bytes (Nat.pow 1024 order) = 1024 then order + 1 else order
  let unit := memoryUnits.getD order "EiB"
  if order = 0 then toString bytes ++ " " ++ unit
  else threeDigits bytes (Nat.pow 1024 order) ++ " " ++ unit

/-- The wording of a fault. -/
def message : ArithmeticFault → String
  | infinite => "cannot convert float infinity to integer"
  | undefined => "cannot convert float NaN to integer"
  | powerTooLarge => "(34, 'Numerical result out of range')"
  | integerTooLarge => "int too large to convert to float"
  | logarithmDomain => "math domain error"
  | zeroDivisor => "division by zero"
  | textUncountable => "cannot fit 'int' into an index-sized integer"
  | textTooLong => ""
  | soundUncountable => "Maximum allowed size exceeded"
  | trackUncountable => "Maximum allowed dimension exceeded"
  | samplesUncountable =>
    "array is too big; `arr.size * arr.dtype.itemsize` is larger than the maximum possible size."
  | samplesTooMany count =>
    "Unable to allocate " ++ memoryText (8 * count) ++ " for an array with shape ("
      ++ toString count ++ ",) and data type float64"

end ArithmeticFault

end Tunescript
