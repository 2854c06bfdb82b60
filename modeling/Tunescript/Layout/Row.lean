import Tunescript.Layout.Block
import Tunescript.Number.Capacity

/-!
# Written lines

A line is written from its commands.  Every note is padded to the width that the layout of
its measure gives it: a space, dashes, and a space; behind the last command of a line there
are no dashes.  A measure without a layout gives a note the room of its own text.  A layout
of extreme lengths can ask for more dashes than there can be, or for a line that memory does not
hold, which is a fault.
-/

namespace Tunescript.Layout

/-- The text of a command that plays no note. -/
def controlText (c : Command) : Text :=
  match c.verb with
  | .measure => "| ".toList
  | .reset => if c.noun.isEmpty then [';'] else "; ".toList ++ c.noun
  | .voice => "% ".toList ++ c.noun ++ [' ']
  | .tempo => "[ ".toList ++ c.noun ++ "_bpm ] ".toList
  | .time => "[ ".toList ++ c.noun ++ " ] ".toList
  | .comment => "~ ".toList ++ c.noun
  | .checkpoint => ['*']
  | .note _ => []

/-- The number of spaces around the dashes behind a note. -/
def spacesAroundDashes : Nat := 2

variable [Memory]

/-- The text of a note padded to a number of columns. -/
def pad (token : Text) (target : Int) (hasNext : Bool) : Except ArithmeticFault Text :=
  let slack := (target - token.length).toNat
  if slack < spacesAroundDashes then .ok (token ++ [' '])
  else do
    let dashes ← Capacity.ofText (if hasNext then (slack - spacesAroundDashes : Nat) else 0)
    return token ++ ' ' :: List.replicate dashes '-' ++ [' ']

variable {α : Type} [Scalar α]

/-- The number of columns for a note in the numbered measure. -/
def target (layouts : List (List (Segment α))) (measure : Nat) (start duration : α)
    (token : Text) : Except ArithmeticFault Int :=
  match layouts[measure]? with
  | some segments => Scalar.ceiling (widthBetween segments start (start + duration))
  | none => .ok (token.length + padding)

/-- The pieces of a line, after the given number of bars and at the given time. -/
def pieces (layouts : List (List (Segment α))) (bars : Nat) (time : α) :
    List Command → Except ArithmeticFault (List Text)
  | [] => .ok []
  | c :: cs =>
    match c.verb with
    | .note name =>
      let token := token name c.noun
      let quarters : α := NoteLength.quarters c.noun
      if Scalar.atMost quarters Scalar.zero then do
        let rest ← pieces layouts bars time cs
        return (token ++ [' ']) :: rest
      else do
        let columns ← target layouts (bars - 1) time quarters token
        let padded ← pad token columns (!cs.isEmpty)
        let rest ← pieces layouts bars (time + quarters) cs
        return padded :: rest
    | .measure => do
      let rest ← pieces layouts (bars + 1) Scalar.zero cs
      return controlText c :: rest
    | _ => do
      let rest ← pieces layouts bars time cs
      return controlText c :: rest

/-- The line of a list of commands, without its line end. -/
def renderLine (cs : List Command) (layouts : List (List (Segment α))) :
    Except ArithmeticFault Text := do
  let written ← pieces layouts 0 Scalar.zero cs
  let line ← Capacity.join written
  return Text.trimEnd line

end Tunescript.Layout
