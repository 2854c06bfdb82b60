import Tunescript.Text.Basic
import Tunescript.Text.Digit

/-!
# Numerals

The numbers that a text writes.  A decimal numeral has an optional sign, digits with an
optional point, and an optional exponent, or it is one of the words for infinity and for an
undefined value in any case.  A whole numeral has a sign and digits only.  Digits of every
script count, a single underscore may stand between two digits, and blanks around the
numeral do not count.
-/

namespace Tunescript

/-- The value that a decimal numeral writes. -/
inductive Numeral where
  /-- The value `± digits * 10 ^ exponent`. -/
  | finite (negative : Bool) (digits : Nat) (exponent : Int)
  /-- Infinity with a sign. -/
  | infinite (negative : Bool)
  /-- No value. -/
  | undefined
deriving DecidableEq, Repr

namespace Numeral

/-- The largest number of digits in a whole numeral. -/
def digitLimit : Nat := 4300

/-- Whether a character may stand around a numeral: a blank, but no information separator. -/
def isMargin (c : Char) : Bool :=
  Text.isBlank c && !(0x1c ≤ c.toNat && c.toNat ≤ 0x1f)

/-- The text of a numeral without what stands around it. -/
def trim (t : Text) : Text :=
  Text.dropEndWhile isMargin (t.dropWhile isMargin)

/-- The sign in front of a text, `true` for minus, and the text after it. -/
def sign : Text → Bool × Text
  | '-' :: t => (true, t)
  | '+' :: t => (false, t)
  | t => (false, t)

/-- The values of the digits in front of a text, and the text after them.  An underscore
between two digits is passed over. -/
def digits : Text → List Nat × Text
  | [] => ([], [])
  | c :: t =>
    match Text.digitValue? c with
    | none => ([], c :: t)
    | some d =>
      let (ds, rest) := digits t
      match t with
      | '_' :: u =>
        let (es, rest') := digits u
        if es.isEmpty then ([d], t) else (d :: es, rest')
      | _ => (d :: ds, rest)

/-- The number with the given decimal digits. -/
def ofDigits (ds : List Nat) : Nat :=
  ds.foldl (fun n d => n * 10 + d) 0

/-- The exponent that a text writes, nothing for the empty text. -/
def exponent? : Text → Option Int
  | [] => some 0
  | c :: t =>
    if c = 'e' ∨ c = 'E' then
      let (negative, t) := sign t
      match digits t with
      | ([], _) => none
      | (ds, []) => some (if negative then -(ofDigits ds : Int) else ofDigits ds)
      | _ => none
    else none

/-- The numeral that a text writes after its sign. -/
def unsigned? (negative : Bool) (t : Text) : Option Numeral :=
  let word := t.map Char.toLower
  if word = "inf".toList ∨ word = "infinity".toList then some (.infinite negative)
  else if word = "nan".toList then some .undefined
  else
    let (whole, t) := digits t
    let (part, t) := match t with
      | '.' :: t => digits t
      | t => ([], t)
    if whole.isEmpty && part.isEmpty then none
    else (exponent? t).map fun e => .finite negative (ofDigits (whole ++ part)) (e - part.length)

/-- The decimal numeral that a text writes. -/
def read? (t : Text) : Option Numeral :=
  let (negative, t) := sign (trim t)
  unsigned? negative t

/-- The integer that a whole numeral writes. -/
def readWhole? (t : Text) : Option Int :=
  let (negative, t) := sign (trim t)
  match digits t with
  | ([], _) => none
  | (ds, []) =>
    if ds.length ≤ digitLimit then some (if negative then -(ofDigits ds : Int) else ofDigits ds)
    else none
  | _ => none

end Numeral

end Tunescript
