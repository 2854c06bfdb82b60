import Tunescript.Text.Basic

/-!
# Hexadecimal digits

The fixed-width form in which messages write bytes and code points.
-/

namespace Tunescript.Text

/-- The last `width` hexadecimal digits of a number. -/
def hexadecimal (width n : Nat) : Text :=
  match width with
  | 0 => []
  | width + 1 => hexadecimal width (n / 16) ++ [Nat.digitChar (n % 16)]

end Tunescript.Text
