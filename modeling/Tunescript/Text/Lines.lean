import Tunescript.Text.Basic

/-!
# Lines of a text

A text with `n` line ends has `n + 1` rows: every row but the last ends with its line end,
and the last row may be empty.  The lines of a text are its rows without an empty last one.
Both put back together give the text.
-/

namespace Tunescript.Text

/-- The rows of a text, each with its line end, the last one possibly empty. -/
def rows : Text → List Text
  | [] => [[]]
  | c :: t =>
    if c = '\n' then ['\n'] :: rows t
    else match rows t with
      | [] => [[c]]
      | r :: rs => (c :: r) :: rs

/-- The lines of a text, each with its line end if it has one; none is empty. -/
def lines (t : Text) : List Text := (rows t).filter fun r => !r.isEmpty

/-- The positions at which the rows of the given texts start, from the position `n` on. -/
def offsets (n : Nat) : List Text → List Nat
  | [] => []
  | r :: rs => n :: offsets (n + r.length) rs

/-- The positions at which the rows of a text start. -/
def rowStarts (t : Text) : List Nat := offsets 0 (rows t)

/-- Whether a line ends with its line end. -/
def endsLine (line : Text) : Bool := line.getLast? == some '\n'

/-- The line without its line end. -/
def withoutLineEnd (line : Text) : Text :=
  if endsLine line then line.dropLast else line

@[simp]
theorem flatten_rows (t : Text) :
  (rows t).flatten = t
  := by
  induction t with
  | nil => rfl
  | cons c t ih =>
    rw [rows]
    split
    · rename_i h
      simp [ih, h]
    · split
      · rename_i h
        rw [h] at ih
        simp [← ih]
      · rename_i h
        rw [h] at ih
        simp [← ih]

@[simp]
theorem flatten_lines (t : Text) :
  (lines t).flatten = t
  := by
  have h (rs : List Text) : (rs.filter fun r => !r.isEmpty).flatten = rs.flatten := by
    induction rs with
    | nil => rfl
    | cons r rs ih => cases r <;> simp [ih]
  rw [lines, h, flatten_rows]

end Tunescript.Text
