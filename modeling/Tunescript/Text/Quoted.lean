import Tunescript.Text.Hexadecimal
import Tunescript.Text.Printable

/-!
# Quoted texts

The form in which messages show a text: between single quotes, or between double quotes when
the text holds a single quote and no double quote.  Backslashes, the quote in use, line ends,
tabs and characters that are not printable are escaped.
-/

namespace Tunescript.Text

/-- A character as it stands between the given quotes. -/
def escape (quote c : Char) : Text :=
  if c = quote ∨ c = '\\' then ['\\', c]
  else if c = '\n' then "\\n".toList
  else if c = '\r' then "\\r".toList
  else if c = '\t' then "\\t".toList
  else if isPrintable c then [c]
  else if c.toNat < 0x100 then "\\x".toList ++ hexadecimal 2 c.toNat
  else if c.toNat < 0x10000 then "\\u".toList ++ hexadecimal 4 c.toNat
  else "\\U".toList ++ hexadecimal 8 c.toNat

/-- The quotes that stand around a text. -/
def quoteFor (t : Text) : Char :=
  if t.contains '\'' && !t.contains '"' then '"' else '\''

/-- The text in quotes. -/
def quoted (t : Text) : String :=
  let quote := quoteFor t
  String.ofList ([quote] ++ t.flatMap (escape quote) ++ [quote])

end Tunescript.Text
