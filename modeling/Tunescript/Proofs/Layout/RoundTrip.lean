import Tunescript.Proofs.Layout.LineReading
import Tunescript.Proofs.Layout.Room
import Tunescript.Proofs.Score.Concatenation

/-!
# Rendering a line and reading it again

A line whose blanks are plain and whose notes have no word of another verb for their names holds
commands that can be read from what is written for them (`Spelled.legibleLine`).  It can be rendered
exactly if there is room for its commands, and what is rendered is read as the commands of the line,
up to the number of stars of its checkpoints and of checkpoints in a row (`readLine_renderLine`).
-/

namespace Tunescript

open Score
open Text (isBlank trim)

/-- All blanks in the text are spaces, tabs and line ends. -/
def PlainBlanks (t : Text) : Prop := ∀ c ∈ t, isBlank c → c ∈ [' ', '\t', '\r', '\n']

/-- The phrase does not take the name of a note for the word of another verb. -/
def Score.Phrase.Plain (p : Phrase) : Prop :=
  (skip p.text).head? = some '(' → p.command.verb.isNote

/-- The text consists of phrases of which those that look like notes are notes. -/
def PlainNotes (t : Text) : Prop :=
  ∃ ps, Spelled ps t ∧ WholeStars ps ∧ ∀ p ∈ ps, p.Plain

section Line

variable {t u : Text}

theorem PlainBlanks.of_append (h : PlainBlanks (t ++ u)) :
  PlainBlanks t ∧ PlainBlanks u
  := List.forall_mem_append.mp h

end Line

namespace Score

variable {p r t : Text} {c : Command} {ps : List Phrase}

/-- A reset takes all dashes in front of its noun, since no blank but those that it takes as well
stands between them. -/
theorem head?_reset_noun {line : Text} (hline : '\n' ∉ line) (h : PlainBlanks line) :
  (trim (line.dropWhile isInlineFiller)).head? ≠ some '-'
  := by
  cases hdrop : line.dropWhile isInlineFiller with
  | nil => nofun
  | cons x u =>
    -- The first character that the reset does not take is no blank, so that trimming keeps it.
    have hx : isInlineFiller x = false := by
      have hhead := List.head?_dropWhile_not isInlineFiller line
      rw [hdrop] at hhead
      simpa using hhead
    have hmem : x ∈ line := by
      apply (List.dropWhile_suffix isInlineFiller).subset
      rw [hdrop]
      apply List.mem_cons_self
    have hblank : isBlank x = false := by
      apply Bool.eq_false_iff.mpr
      intro hblank
      have hplain := h x hmem hblank
      simp only [List.mem_cons, List.not_mem_nil, or_false] at hplain
      obtain rfl | rfl | rfl | rfl := hplain
      · cases hx
      · cases hx
      · cases hx
      · apply hline hmem
    have hstart : Text.trimStart (x :: u) = x :: u :=
      List.dropWhile_cons_of_neg (Bool.eq_false_iff.mp hblank)
    have htrimmed : trim (x :: u) = x :: Text.trimEnd u := by
      by_cases hu : Text.trimEnd u = []
      · have hsingle : Text.trimEnd [x] = [x] := by
          apply Text.trimEnd_eq_self
          rintro _ ⟨⟩
          apply hblank
        rw [trim, hstart, hu, ← List.singleton_append,
          Text.trimEnd_append_of_trimmed hsingle, hu, List.append_nil]
      · rw [trim, hstart, ← List.singleton_append, Text.trimEnd_append _ hu,
          List.singleton_append]
    rw [htrimmed]
    rintro ⟨⟩
    cases hx

/-- A plain phrase that starts like a note spells one. -/
theorem exists_note_of_plain {w u : Text} (hw : Filler w) (h : Phrase.Plain ⟨w ++ '(' :: u, c⟩) :
  ∃ name, c.verb = .note name
  := by
  have hnote : c.verb.isNote := by
    apply h
    dsimp only
    rw [hw.skip_append]
    rfl
  cases hverb : c.verb with
  | note name => exact ⟨name, rfl⟩
  | _ =>
    rw [hverb] at hnote
    cases hnote

/-- What is spelled in plain text can be written, and only bars are measures. -/
theorem Spells.legible (h : Spells r p c) (hblanks : PlainBlanks p) (hplain : Phrase.Plain ⟨p, c⟩) :
  c.Legible ∧ (c.verb = .measure → c.noun = ['|'])
  := by
  cases h with
  | comment => exact ⟨trivial, nofun⟩
  | tempo hw₁ hw₂ hnumber => exact ⟨hnumber.2, nofun⟩
  | time hw₁ hw₂ hfraction => exact ⟨hfraction.2, nofun⟩
  | checkpoint => exact ⟨trivial, nofun⟩
  | voice hw₁ hw₂ hname => exact ⟨hname.2, nofun⟩
  | measure => exact ⟨trivial, fun _ => rfl⟩
  | @reset w line e hw hline =>
    refine ⟨head?_reset_noun hline ?_, nofun⟩
    intro x hx
    apply hblanks
    simp [hx]
  | note hw₁ =>
    obtain ⟨name, hverb⟩ := exists_note_of_plain hw₁ hplain
    rw [Command.Legible, hverb]
    exact ⟨trivial, nofun⟩

/-- A remark takes the rest of its line. -/
theorem Spells.rest_of_remark (h : Spells r p c) (hplain : Phrase.Plain ⟨p, c⟩)
    (hremark : c.verb.isRemark) (hline : IsLine (p ++ r)) :
  r = []
  := by
  have hend {w line e : Text} {x : Char} (he : e = ['\n'] ∨ e = [] ∧ r = [])
      (hline : IsLine ([w, [x], line, e].flatten ++ r)) : r = [] := by
    obtain rfl | ⟨-, hr⟩ := he
    · apply hline (w ++ x :: line) r
      simp
    · apply hr
  cases h with
  | comment hw hnewline he => apply hend he hline
  | reset hw hnewline he => apply hend he hline
  | note hw₁ =>
    obtain ⟨name, hverb⟩ := exists_note_of_plain hw₁ hplain
    rw [hverb] at hremark
    cases hremark
  | _ => cases hremark

/-- The commands of a line of plain phrases can be read from what is written for them. -/
theorem Spelled.legibleLine (h : Spelled ps t) (hline : IsLine t) (hblanks : PlainBlanks t)
    (hplain : ∀ p ∈ ps, p.Plain) :
  LegibleLine (ps.map Phrase.command) ∧ Barred (ps.map Phrase.command)
  := by
  induction h with
  | filler => exact ⟨⟨nofun, nofun⟩, nofun⟩
  | @phrase p c ps t hp h ih =>
    obtain ⟨hc, hps⟩ := List.forall_mem_cons.mp hplain
    obtain ⟨hblanks, htail⟩ := hblanks.of_append
    obtain ⟨hlegible, hbar⟩ := hp.legible hblanks hc
    obtain ⟨hlegibles, hbarred⟩ := ih (hline.of_suffix (List.suffix_append p t)) htail hps
    constructor
    · apply LegibleLine.cons hlegible _ hlegibles
      -- A remark in front of other commands would end with a line end, and these would follow it.
      intro hne
      apply Bool.eq_false_iff.mpr
      intro hremark
      obtain rfl := hp.rest_of_remark hc hremark hline
      rw [h.eq_nil] at hne
      apply hne rfl
    · apply List.forall_mem_cons.mpr ⟨hbar, hbarred⟩

end Score

namespace Layout

/-- A line of plain phrases without other blanks than spaces, tabs and line ends can be rendered
exactly if there is room for its commands, and these are read from what is rendered, up to the
number of stars of their checkpoints and of checkpoints in a row. -/
theorem readLine_renderLine [Memory] {α : Type} [Scalar α] {t : Text} {cs : List Command}
    (h : readLine t = .ok cs) (hblanks : PlainBlanks t) (hnotes : PlainNotes t)
    (layouts : List (List (Segment α))) :
  ((∃ w, renderLine cs layouts = .ok w) ↔ Room layouts cs) ∧
    ∀ w, renderLine cs layouts = .ok w → ∃ ds, readLine w = .ok ds ∧ joined ds = joined cs
  := by
  use exists_renderLine_iff
  intro w hw
  obtain ⟨hline, hcs⟩ := readLine_eq_ok.mp h
  obtain ⟨ps, hps, hwhole, hplain⟩ := hnotes
  rw [(commands_of_spelled hps).2 hwhole] at hcs
  obtain ⟨⟩ := hcs
  obtain ⟨hlegible, hbarred⟩ := hps.legibleLine hline hblanks hplain
  have hshaped := (shapedLine_of_commands hline ((commands_of_spelled hps).2 hwhole)).shaped
  have hwritten := written_of_renderLine hshaped hw
  have hread := commands_written hwritten hshaped hlegible (.inl rfl)
  rw [List.append_nil] at hread
  use fused ((ps.map Phrase.command).map reread)
  constructor
  · apply readLine_eq_ok.mpr ⟨_, hread⟩
    rintro u v rfl
    cases hwritten.newline hshaped (by simp)
  · rw [joined_fused, joined_reread hbarred]

/-- The line of a note, a bar and a reset is plain. -/
theorem plain_notedLine :
  readLine "(a 1/4)|;x".toList =
      .ok [⟨.note ['a'], "1/4".toList⟩, ⟨.measure, ['|']⟩, ⟨.reset, ['x']⟩] ∧
    PlainBlanks "(a 1/4)|;x".toList ∧ PlainNotes "(a 1/4)|;x".toList
  := by
  have hnone : Filler [] := List.forall_mem_nil _
  have hname : Run isNameChar ['a'] := ⟨List.cons_ne_nil _ _, List.all_eq_true.mp rfl⟩
  have hspace : Run isFiller [' '] := ⟨List.cons_ne_nil _ _, List.all_eq_true.mp rfl⟩
  have hfraction : Run isFractionChar "1/4".toList :=
    ⟨List.cons_ne_nil _ _, List.all_eq_true.mp rfl⟩
  have hdots : ∀ c ∈ ([] : Text), c = '+' := nofun
  have hnote : Spells "|;x".toList "(a 1/4)".toList ⟨.note ['a'], "1/4".toList⟩ :=
    Spells.note hnone hnone hname hspace hfraction hdots hnone hdots hnone
  have hline : '\n' ∉ ['x'] := by decide
  have hreset : Spells [] ";x".toList ⟨.reset, ['x']⟩ :=
    Spells.reset hnone hline (.inr ⟨rfl, rfl⟩)
  have hspelled := Spelled.phrase hnote
    (.phrase (.measure hnone hnone) (.phrase hreset (.filler hnone)))
  have hblanks : "(a 1/4)|;x".toList.all fun c => !isBlank c || c == ' ' := by decide
  refine ⟨by decide +kernel, ?_, _, hspelled, ?_, ?_⟩
  · intro c hc hblank
    have hspace := List.all_eq_true.mp hblanks c hc
    rw [hblank, Bool.not_true, Bool.false_or] at hspace
    rw [eq_of_beq hspace]
    apply List.mem_cons_self
  · simp [WholeStars, CutsStars]
  · intro p hp hhead
    simp only [List.mem_cons, List.not_mem_nil, or_false] at hp
    obtain rfl | rfl | rfl := hp
    · rfl
    · cases hhead
    · cases hhead

attribute [local instance] Memory.sixteenGigabytes in
/-- It is rendered and read again. -/
theorem readLine_renderLine_notedLine :
  readLine "(a 1/4)|;x".toList =
      .ok [⟨.note ['a'], "1/4".toList⟩, ⟨.measure, ['|']⟩, ⟨.reset, ['x']⟩] ∧
    PlainBlanks "(a 1/4)|;x".toList ∧ PlainNotes "(a 1/4)|;x".toList ∧
    ∃ w ds, renderLine [⟨.note ['a'], "1/4".toList⟩, ⟨.measure, ['|']⟩, ⟨.reset, ['x']⟩]
        [[(⟨0, 1, 12⟩ : Segment Rat)]] = .ok w ∧ readLine w = .ok ds ∧
      joined ds = joined [⟨.note ['a'], "1/4".toList⟩, ⟨.measure, ['|']⟩, ⟨.reset, ['x']⟩]
  := by
  obtain ⟨hread, hblanks, hnotes⟩ := plain_notedLine
  have hw : renderLine [⟨.note ['a'], "1/4".toList⟩, ⟨.measure, ['|']⟩, ⟨.reset, ['x']⟩]
      [[(⟨0, 1, 12⟩ : Segment Rat)]] = .ok "(a 1/4) --- | ; x".toList := by
    decide +kernel
  obtain ⟨ds, hds, hjoined⟩ := (readLine_renderLine hread hblanks hnotes _).2 _ hw
  exact ⟨hread, hblanks, hnotes, _, ds, hw, hds, hjoined⟩

attribute [local instance] Memory.sixteenGigabytes in
/-- In a segment of too many columns it cannot be rendered. -/
theorem not_readLine_renderLine_wideSegment :
  readLine "(a 1/4)|;x".toList =
      .ok [⟨.note ['a'], "1/4".toList⟩, ⟨.measure, ['|']⟩, ⟨.reset, ['x']⟩] ∧
    PlainBlanks "(a 1/4)|;x".toList ∧ PlainNotes "(a 1/4)|;x".toList ∧
    ¬∃ w ds, renderLine [⟨.note ['a'], "1/4".toList⟩, ⟨.measure, ['|']⟩, ⟨.reset, ['x']⟩]
        [[(⟨0, 1, 18446744073709551616⟩ : Segment Rat)]] = .ok w ∧ readLine w = .ok ds ∧
      joined ds = joined [⟨.note ['a'], "1/4".toList⟩, ⟨.measure, ['|']⟩, ⟨.reset, ['x']⟩]
  := by
  obtain ⟨hread, hblanks, hnotes⟩ := plain_notedLine
  have hfault : renderLine [⟨.note ['a'], "1/4".toList⟩, ⟨.measure, ['|']⟩, ⟨.reset, ['x']⟩]
      [[(⟨0, 1, 18446744073709551616⟩ : Segment Rat)]] = .error .textUncountable := by
    decide +kernel
  refine ⟨hread, hblanks, hnotes, ?_⟩
  rintro ⟨w, ds, hw, -⟩
  rw [hfault] at hw
  cases hw

end Layout

end Tunescript
