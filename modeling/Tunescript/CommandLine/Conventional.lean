import Tunescript.CommandLine.Console

/-!
# The conventional console

An option is written with a long name after two dashes or with a letter after one; letters can
be joined behind one dash.  The value of an option follows it, or is joined to it: with an
equals sign to a long name, directly to a letter.  Two dashes alone end the options.

Escape sequences tell a terminal how to show a text, and the conventional console, which is no
terminal, leaves them out.  A sequence starts with an escape character and a bracket, goes on
with parameter characters and then with intermediate characters, and ends with a final
character.
-/

namespace Tunescript.CommandLine

namespace Conventional

/-- The arguments behind some options. -/
def behind (options : List (String × Option Text)) (a : Arguments) : Arguments :=
  { a with options := options ++ a.options }

/-- What an argument with dashes holds. -/
inductive Dashed where
  /-- Options that are complete. -/
  | complete (options : List (String × Option Text))
  /-- Options, and the key of one whose value is the next argument. -/
  | needsValue (options : List (String × Option Text)) (key : String)
  /-- No option of the command. -/
  | unknown

/-- What the letters behind one dash hold. -/
def readLetters (specs : List OptionSpec) : Text → Dashed
  | [] => .complete []
  | c :: cs =>
    match specs.find? (·.short.contains c) with
    | none => .unknown
    | some spec =>
      if spec.takesValue then
        if cs.isEmpty then .needsValue [] spec.key else .complete [(spec.key, some cs)]
      else match readLetters specs cs with
        | .complete options => .complete ((spec.key, none) :: options)
        | .needsValue options key => .needsValue ((spec.key, none) :: options) key
        | .unknown => .unknown

/-- What an argument that starts with a dash holds. -/
def readDashed (specs : List OptionSpec) (argument : Text) : Dashed :=
  let name := argument.takeWhile (· != '=')
  match specs.find? (·.long.contains name) with
  | some spec =>
    if argument.contains '=' then
      if spec.takesValue then .complete [(spec.key, some (argument.drop (name.length + 1)))]
      else .unknown
    else if spec.takesValue then .needsValue [] spec.key
    else .complete [(spec.key, none)]
  | none =>
    if argument.take 2 == ['-', '-'] then .unknown else readLetters specs (argument.drop 1)

/-- Whether an argument holds options. -/
def isDashed (argument : Text) : Bool := argument.head? == some '-' && 1 < argument.length

/-- The options and positions among some arguments, nothing if they are misused.  Without
mixing, everything from the first position on is a position. -/
def read? (specs : List OptionSpec) (mixing : Bool) : List Text → Option Arguments
  | [] => some {}
  | argument :: rest =>
    if argument = ['-', '-'] then some { positions := rest }
    else if isDashed argument then
      match readDashed specs argument with
      | .unknown => none
      | .complete options => (read? specs mixing rest).map (behind options)
      | .needsValue options key =>
        match rest with
        | [] => none
        | value :: rest =>
          (read? specs mixing rest).map (behind (options ++ [(key, some value)]))
    else if mixing then
      (read? specs mixing rest).map fun a => { a with positions := argument :: a.positions }
    else some { positions := argument :: rest }

/-- Whether a character is a parameter: a digit or one of the next six characters. -/
def isParameter (c : Char) : Bool := '0' ≤ c && c ≤ '?'

/-- Whether a character is intermediate: a space or a character between it and the digits. -/
def isIntermediate (c : Char) : Bool := ' ' ≤ c && c ≤ '/'

/-- Whether a character ends an escape sequence: a letter, or a character around them. -/
def isFinal (c : Char) : Bool := '@' ≤ c && c ≤ '~'

/-- The length of the escape sequence in front of a text, if there is one. -/
def escapeLength? : Text → Option Nat
  | c :: '[' :: t =>
    let parameters := t.takeWhile isParameter
    let intermediates := (t.drop parameters.length).takeWhile isIntermediate
    let inner := parameters.length + intermediates.length
    if c = escapeChar ∧ (t.drop inner).head?.any isFinal then some (inner + 3) else none
  | _ => none

/-- The text without the first `skipped` characters and without the escape sequences after
them. -/
def unescapedFrom : (skipped : Nat) → Text → Text
  | _, [] => []
  | skipped + 1, _ :: t => unescapedFrom skipped t
  | 0, c :: t =>
    match escapeLength? (c :: t) with
    | some n => unescapedFrom (n - 1) t
    | none => c :: unescapedFrom 0 t

/-- The text without its escape sequences. -/
def unescaped (t : Text) : Text := unescapedFrom 0 t

theorem unescaped_eq_self {t : Text} (h : escapeChar ∉ t) :
  unescaped t = t
  := by
  unfold unescaped
  induction t with
  | nil => rfl
  | cons c t ih =>
    have hc : c ≠ escapeChar := fun e => h (e ▸ List.mem_cons_self)
    have hn : escapeLength? (c :: t) = none := by
      unfold escapeLength?
      split <;> simp_all
    simp only [unescapedFrom, hn]
    rw [ih fun m => h (List.mem_cons_of_mem _ m)]

end Conventional

/-- The console that reads options in the conventional way and leaves escape sequences out. -/
def Console.conventional : Console where
  read? := Conventional.read?
  shown := Conventional.unescaped
  shown_of_plain := fun _ => Conventional.unescaped_eq_self

end Tunescript.CommandLine
