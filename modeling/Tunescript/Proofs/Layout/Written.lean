import Tunescript.Layout.Row
import Tunescript.Proofs.Score.Shape

/-!
# What a written line consists of

A line is written piece by piece, each piece from one command and what has been counted before it
(`pieces_cons`).  A piece is the text of its command, which starts with the mark of its verb, and a
gap of spaces and dashes behind it (`piece_eq_ok`).  Behind the last command there is no gap, since
the gap there is blank and trimmed away (`written_of_renderLine`).
-/

namespace Tunescript.Layout

open Score
open Text (Trimmed isBlank)

/-- The text of a command without the gap behind it. -/
def core (c : Command) : Text :=
  match c.verb with
  | .note name => token name c.noun
  | .voice => "% ".toList ++ c.noun
  | .tempo => "[ ".toList ++ c.noun ++ "_bpm ]".toList
  | .time => "[ ".toList ++ c.noun ++ " ]".toList
  | .measure => ['|']
  | .reset => if c.noun.isEmpty then [';'] else "; ".toList ++ c.noun
  | .comment => if c.noun.isEmpty then ['~'] else "~ ".toList ++ c.noun
  | .checkpoint => ['*']

/-- The character that the text of a command with a verb starts with. -/
def mark : Verb → Char
  | .note _ => '('
  | .voice => '%'
  | .tempo => '['
  | .time => '['
  | .measure => '|'
  | .reset => ';'
  | .comment => '~'
  | .checkpoint => '*'

/-- The text consists of the texts of the commands with gaps between them. -/
inductive Written : List Command → Text → Prop
  /-- No command is written. -/
  | nil : Written [] []
  /-- A command, a gap unless it is the last or a checkpoint, and the other commands. -/
  | cons {c : Command} {cs : List Command} {gap w : Text} (hgap : ∀ x ∈ gap, x = ' ' ∨ x = '-')
    (hstar : c.verb = .checkpoint → gap = []) (hlast : cs = [] → gap = []) (h : Written cs w) :
    Written (c :: cs) (core c ++ (gap ++ w))

/-- The texts are those of the commands, each with a gap behind it, the last one blank. -/
inductive Padded : List Command → List Text → Prop
  /-- No command is written. -/
  | nil : Padded [] []
  /-- A command with a gap, and the other commands. -/
  | cons {c : Command} {cs : List Command} {gap : Text} {ps : List Text}
    (hgap : ∀ x ∈ gap, x = ' ' ∨ x = '-') (hstar : c.verb = .checkpoint → gap = [])
    (hlast : cs = [] → ∀ x ∈ gap, x = ' ') (h : Padded cs ps) :
    Padded (c :: cs) ((core c ++ gap) :: ps)

theorem core_eq_cons (c : Command) :
  ∃ t, core c = mark c.verb :: t
  := by
  rw [core]
  cases c.verb with
  | note name => exact ⟨_, rfl⟩
  | voice => exact ⟨_, rfl⟩
  | tempo => exact ⟨_, rfl⟩
  | time => exact ⟨_, rfl⟩
  | measure => exact ⟨_, rfl⟩
  | reset =>
    dsimp only
    split <;> exact ⟨_, rfl⟩
  | comment =>
    dsimp only
    split <;> exact ⟨_, rfl⟩
  | checkpoint => exact ⟨_, rfl⟩

theorem core_ne_nil (c : Command) :
  core c ≠ []
  := by
  obtain ⟨t, ht⟩ := core_eq_cons c
  rw [ht]
  apply List.cons_ne_nil

section Pieces

/-- The text of a command that plays no note is its text with at most a space behind it. -/
theorem controlText_eq {c : Command} (h : c.verb.isNote = false) :
  ∃ gap, controlText c = core c ++ gap ∧ (c.verb = .checkpoint → gap = []) ∧ ∀ x ∈ gap, x = ' '
  := by
  obtain ⟨verb, noun⟩ := c
  have hspace : ∀ x ∈ [' '], x = ' ' := by
    intro x hx
    apply List.mem_singleton.mp hx
  have hnone : ∀ x ∈ ([] : Text), x = ' ' := by
    intro x hx
    cases hx
  cases verb with
  | note name => cases h
  | voice => exact ⟨[' '], rfl, nofun, hspace⟩
  | tempo => exact ⟨[' '], by simp [controlText, core], nofun, hspace⟩
  | time => exact ⟨[' '], by simp [controlText, core], nofun, hspace⟩
  | measure => exact ⟨[' '], rfl, nofun, hspace⟩
  | reset => exact ⟨[], by simp [controlText, core], nofun, hnone⟩
  | comment =>
    cases noun with
    | nil => exact ⟨[' '], rfl, nofun, hspace⟩
    | cons x noun => exact ⟨[], by simp [controlText, core], nofun, hnone⟩
  | checkpoint => exact ⟨[], rfl, fun _ => rfl, hnone⟩

variable [Memory]

/-- Behind a note there are spaces, and dashes if a command follows. -/
theorem pad_eq_ok {t p : Text} {columns : Int} {hasNext : Bool}
    (h : pad t columns hasNext = .ok p) :
  ∃ gap, p = t ++ gap ∧ (∀ x ∈ gap, x = ' ' ∨ x = '-') ∧ (hasNext = false → ∀ x ∈ gap, x = ' ')
  := by
  rw [pad] at h
  split at h
  · cases h
    use [' '], rfl
    constructor
    · intro x hx
      apply Or.inl (List.mem_singleton.mp hx)
    · intro _ x hx
      apply List.mem_singleton.mp hx
  · cases hdashes : Capacity.ofText (if hasNext then
        ((columns - t.length).toNat - spacesAroundDashes : Nat) else 0) with
    | error f =>
      rw [hdashes] at h
      cases h
    | ok dashes =>
      rw [hdashes] at h
      cases h
      use ' ' :: List.replicate dashes '-' ++ [' ']
      refine ⟨by rw [List.append_assoc], ?_, ?_⟩
      · intro x hx
        simp only [List.mem_append, List.mem_cons, List.mem_replicate, List.not_mem_nil,
          or_false] at hx
        obtain (rfl | ⟨-, rfl⟩) | rfl := hx
        · apply Or.inl rfl
        · apply Or.inr rfl
        · apply Or.inl rfl
      · rintro rfl x hx
        obtain rfl := Capacity.eq_of_ofText hdashes
        simpa using hx

variable {α : Type} [Scalar α]

/-- The piece of a command, after the given number of bars and at the given time. -/
def piece (layouts : List (List (Segment α))) (bars : Nat) (time : α) (c : Command)
    (hasNext : Bool) : Except ArithmeticFault Text :=
  match c.verb with
  | .note name =>
    if Scalar.atMost (NoteLength.quarters c.noun : α) Scalar.zero then
      .ok (token name c.noun ++ [' '])
    else do
      let columns ← target layouts (bars - 1) time (NoteLength.quarters c.noun) (token name c.noun)
      pad (token name c.noun) columns hasNext
  | _ => .ok (controlText c)

/-- The number of bars after a command. -/
def barsAfter (bars : Nat) (c : Command) : Nat := if c.verb = .measure then bars + 1 else bars

/-- The time after a command. -/
def timeAfter (time : α) (c : Command) : α :=
  match c.verb with
  | .measure => Scalar.zero
  | .note _ =>
    if Scalar.atMost (NoteLength.quarters c.noun : α) Scalar.zero then time
    else time + NoteLength.quarters c.noun
  | _ => time

variable {layouts : List (List (Segment α))} {bars : Nat} {time : α}

theorem pieces_cons (c : Command) (cs : List Command) :
  pieces layouts bars time (c :: cs) = do
    let p ← piece layouts bars time c (!cs.isEmpty)
    let rest ← pieces layouts (barsAfter bars c) (timeAfter time c) cs
    return p :: rest
  := by
  obtain ⟨verb, noun⟩ := c
  cases verb with
  | note name =>
    rw [pieces, piece, timeAfter, barsAfter]
    dsimp only
    split
    · rfl
    · have hverb : Verb.note name ≠ .measure := by
        intro h
        cases h
      rw [if_neg hverb]
      simp only [bind_assoc]
  | _ => rfl

theorem pieces_cons_eq_ok {c : Command} {cs : List Command} {ps : List Text}
    (h : pieces layouts bars time (c :: cs) = .ok ps) :
  ∃ p qs, piece layouts bars time c (!cs.isEmpty) = .ok p ∧
    pieces layouts (barsAfter bars c) (timeAfter time c) cs = .ok qs ∧ ps = p :: qs
  := by
  rw [pieces_cons] at h
  obtain ⟨p, hp, h⟩ := bind_eq_ok h
  obtain ⟨qs, hqs, h⟩ := bind_eq_ok h
  cases h
  exact ⟨p, qs, hp, hqs, rfl⟩

theorem piece_of_not_note {c : Command} (h : c.verb.isNote = false) (hasNext : Bool) :
  piece layouts bars time c hasNext = .ok (controlText c)
  := by
  obtain ⟨verb, noun⟩ := c
  cases verb with
  | note name => cases h
  | _ => rfl

/-- The piece of a command is its text with a gap behind it, which is blank if nothing follows. -/
theorem piece_eq_ok {c : Command} {hasNext : Bool} {p : Text}
    (h : piece layouts bars time c hasNext = .ok p) :
  ∃ gap, p = core c ++ gap ∧ (∀ x ∈ gap, x = ' ' ∨ x = '-') ∧
    (c.verb = .checkpoint → gap = []) ∧ (hasNext = false → ∀ x ∈ gap, x = ' ')
  := by
  cases hnote : c.verb.isNote with
  | true =>
    obtain ⟨verb, noun⟩ := c
    cases verb with
    | note name =>
      rw [piece] at h
      dsimp only at h
      split at h
      · cases h
        use [' '], rfl
        simp
      · obtain ⟨columns, -, hpad⟩ := bind_eq_ok h
        obtain ⟨gap, rfl, hgap, hlast⟩ := pad_eq_ok hpad
        use gap, rfl, hgap, nofun, hlast
    | _ => cases hnote
  | false =>
    rw [piece_of_not_note hnote] at h
    cases h
    obtain ⟨gap, hgap, hstar, hspaces⟩ := controlText_eq hnote
    use gap, hgap, fun x hx => .inl (hspaces x hx), hstar, fun _ => hspaces

theorem padded_of_pieces {cs : List Command} {ps : List Text}
    (h : pieces layouts bars time cs = .ok ps) :
  Padded cs ps
  := by
  induction cs generalizing bars time ps with
  | nil =>
    cases h
    apply Padded.nil
  | cons c cs ih =>
    obtain ⟨p, qs, hp, hqs, rfl⟩ := pieces_cons_eq_ok h
    obtain ⟨gap, rfl, hgap, hstar, hlast⟩ := piece_eq_ok hp
    apply Padded.cons hgap hstar _ (ih hqs)
    rintro rfl
    apply hlast rfl

/-- A line is written without the blanks at its end if its pieces fit into memory together. -/
theorem renderLine_eq_ok_iff {cs : List Command} {w : Text} :
  renderLine cs layouts = .ok w ↔ ∃ ps, pieces layouts 0 Scalar.zero cs = .ok ps ∧
    ps.flatten.length < Memory.size ∧ Text.trimEnd ps.flatten = w
  := by
  constructor
  · intro h
    obtain ⟨ps, hps, h⟩ := bind_eq_ok h
    obtain ⟨line, hline, h⟩ := bind_eq_ok h
    obtain ⟨rfl, hfits⟩ := Capacity.join_eq_ok_iff.mp hline
    exact ⟨ps, hps, hfits, Except.ok.inj h⟩
  · rintro ⟨ps, hps, hfits, rfl⟩
    rw [renderLine, hps]
    dsimp only [bind, Except.bind]
    rw [Capacity.join_eq_ok_iff.mpr ⟨rfl, hfits⟩]
    rfl

theorem length_lt_of_renderLine {cs : List Command} {w : Text} (h : renderLine cs layouts = .ok w) :
  w.length < Memory.size
  := by
  obtain ⟨ps, -, hfits, rfl⟩ := renderLine_eq_ok_iff.mp h
  apply Nat.lt_of_le_of_lt _ hfits
  apply (Text.trimEnd_prefix_self ps.flatten).length_le

end Pieces

section Trim

variable {c : Command}

theorem last_append {t u : Text} (hu : u ≠ []) (hall : ∀ x ∈ u, isBlank x = false) {x : Char}
    (hx : (t ++ u).getLast? = some x) :
  isBlank x = false
  := by
  rw [List.getLast?_append_of_ne_nil _ hu] at hx
  apply hall x (List.mem_of_getLast? hx)

theorem last_remark {o : Char} {noun : Text} (ho : isBlank o = false) (hnoun : Trimmed noun)
    {x : Char} (hx : (if noun.isEmpty then [o] else o :: ' ' :: noun).getLast? = some x) :
  isBlank x = false
  := by
  cases noun with
  | nil =>
    cases hx
    apply ho
  | cons d noun =>
    apply hnoun.last x
    simpa using hx

/-- The text of a command ends with no blank. -/
theorem last_core (hc : c.Shaped) {x : Char} (hx : (core c).getLast? = some x) :
  isBlank x = false
  := by
  obtain ⟨verb, noun⟩ := c
  cases verb with
  | note name =>
    have hx : (('(' :: name ++ ' ' :: NoteLength.undotted noun) ++
        ([')'] ++ List.replicate (noun.count dot) dot)).getLast? = some x := by
      rw [← List.append_assoc]
      apply hx
    apply last_append _ _ hx
    · simp
    · intro x hx
      simp only [List.mem_append, List.mem_cons, List.not_mem_nil, or_false,
        List.mem_replicate] at hx
      obtain rfl | ⟨-, rfl⟩ := hx
      · decide
      · decide
  | voice =>
    obtain ⟨hne, hname⟩ | hlength := hc
    · apply last_append hne _ hx
      intro x hx
      apply isBlank_eq_false_of_isInner (isInner_of_isNameChar x (hname x hx))
    · apply last_append _ (isBlank_eq_false_of_isLengthText hlength) hx
      rintro rfl
      cases hlength
  | tempo =>
    apply last_append (u := [']']) (List.cons_ne_nil _ _)
      (t := "[ ".toList ++ noun ++ "_bpm ".toList)
    · intro x hx
      rw [List.mem_singleton.mp hx]
      rfl
    · rw [List.append_assoc]
      apply hx
  | time =>
    apply last_append (u := [']']) (List.cons_ne_nil _ _) (t := "[ ".toList ++ noun ++ " ".toList)
    · intro x hx
      rw [List.mem_singleton.mp hx]
      rfl
    · rw [List.append_assoc]
      apply hx
  | measure =>
    cases hx
    rfl
  | reset => apply last_remark rfl hc.2 hx
  | comment => apply last_remark rfl hc.2 hx
  | checkpoint =>
    cases hx
    rfl

theorem trimEnd_core_append (c : Command) (t : Text) :
  Text.trimEnd (core c ++ t) ≠ []
  := by
  obtain ⟨u, hu⟩ := core_eq_cons c
  have hmark : isBlank (mark c.verb) = false := by
    cases c.verb <;> rfl
  intro hnil
  have hblank := List.rdropWhile_eq_nil_iff.mp hnil (mark c.verb)
  rw [hu] at hblank
  rw [hblank List.mem_cons_self] at hmark
  cases hmark

/-- Without the blanks at its end, a padded line is written. -/
theorem Padded.written {cs : List Command} {ps : List Text} (hcs : ∀ c ∈ cs, c.Shaped)
    (h : Padded cs ps) :
  Written cs (Text.trimEnd ps.flatten)
  := by
  induction h with
  | nil => apply Written.nil
  | @cons c cs gap ps hgap hstar hlast h ih =>
    have ih := ih fun d hd => hcs d (List.mem_cons_of_mem _ hd)
    rw [List.flatten_cons]
    cases h with
    | nil =>
      have hblank : ∀ x ∈ gap, isBlank x := by
        intro x hx
        rw [hlast rfl x hx]
        rfl
      have hcore : Text.trimEnd (core c) = core c := by
        apply Text.trimEnd_eq_self
        intro x hx
        apply last_core (hcs c List.mem_cons_self) hx
      rw [List.flatten_nil, List.append_nil, Text.trimEnd_append_of_blank _ hblank, hcore]
      have hwritten : Written [c] (core c ++ ([] ++ [])) :=
        Written.cons nofun (fun _ => rfl) (fun _ => rfl) Written.nil
      rw [List.append_nil, List.append_nil] at hwritten
      apply hwritten
    | @cons d ds gap' qs hgap' hstar' hlast' h =>
      rw [List.flatten_cons, List.append_assoc (core d)] at ih ⊢
      rw [Text.trimEnd_append (core c ++ gap) (trimEnd_core_append d _), List.append_assoc]
      apply Written.cons hgap hstar _ ih
      intro h
      cases h

theorem written_of_renderLine [Memory] {α : Type} [Scalar α] {cs : List Command}
    {layouts : List (List (Segment α))} {w : Text} (hcs : ∀ c ∈ cs, c.Shaped)
    (h : renderLine cs layouts = .ok w) :
  Written cs w
  := by
  obtain ⟨ps, hps, -, rfl⟩ := renderLine_eq_ok_iff.mp h
  apply (padded_of_pieces hps).written hcs

end Trim

end Tunescript.Layout
