/-!
# Texts

A text is the list of its characters, so that every position in it counts characters.  This
module holds the operations that the score reader, the layout and the editor share: blanks
and trimming, splitting at a character, and searching.
-/

namespace Tunescript

/-- The characters of a text in reading order. -/
abbrev Text := List Char

namespace Text

/-- The code points of the blanks above ASCII. -/
def wideBlanks : List Nat :=
  [0x85, 0xa0, 0x1680, 0x2000, 0x2001, 0x2002, 0x2003, 0x2004, 0x2005, 0x2006, 0x2007,
    0x2008, 0x2009, 0x200a, 0x2028, 0x2029, 0x202f, 0x205f, 0x3000]

/-- Whether a character is white space, which trimming removes from the ends of a text. -/
def isBlank (c : Char) : Bool :=
  (9 ≤ c.toNat && c.toNat ≤ 13) || (0x1c ≤ c.toNat && c.toNat ≤ 0x20)
    || wideBlanks.contains c.toNat

/-- The text without the characters of a class at its end. -/
def dropEndWhile (p : Char → Bool) (t : Text) : Text :=
  (t.reverse.dropWhile p).reverse

/-- The text without the blanks at its start. -/
def trimStart (t : Text) : Text := t.dropWhile isBlank

/-- The text without the blanks at its end. -/
def trimEnd (t : Text) : Text := dropEndWhile isBlank t

/-- The text without the blanks at its ends. -/
def trim (t : Text) : Text := trimEnd (trimStart t)

/-- The pieces of a text between the occurrences of a separator, one more than there are
separators. -/
def pieces (separator : Char) : Text → List Text
  | [] => [[]]
  | c :: t =>
    if c = separator then [] :: pieces separator t
    else match pieces separator t with
      | [] => [[c]]
      | p :: ps => (c :: p) :: ps

theorem pieces_ne_nil (separator : Char) (t : Text) :
  pieces separator t ≠ []
  := by
  cases t with
  | nil => simp [pieces]
  | cons c t =>
    rw [pieces]
    split
    · simp
    · split <;> simp

/-- The maximal runs of characters that are not blank. -/
def words : Text → List Text
  | [] => []
  | c :: t =>
    if isBlank c then words t
    else match t with
      | [] => [[c]]
      | d :: _ =>
        if isBlank d then [c] :: words t
        else match words t with
          | [] => [[c]]
          | w :: ws => (c :: w) :: ws

/-- The position of the first occurrence of a character. -/
def indexOf? (c : Char) (t : Text) : Option Nat := t.findIdx? (· == c)

/-- The position of the last occurrence of a character. -/
def lastIndexOf? (c : Char) (t : Text) : Option Nat :=
  (t.reverse.findIdx? (· == c)).map fun k => t.length - 1 - k

/-- Whether a text occurs somewhere in another. -/
def occursIn (pattern : Text) : Text → Bool
  | [] => pattern.isEmpty
  | c :: t => pattern.isPrefixOf (c :: t) || occursIn pattern t

/-- The text without any occurrence of a character. -/
def erasing (c : Char) (t : Text) : Text := t.filter (· != c)

/-- The decimal digits of an integer, with a minus sign before a negative one. -/
def ofInt (n : Int) : Text := (toString n).toList

end Text

end Tunescript
