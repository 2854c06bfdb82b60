import Tunescript.Layout.Measure
import Tunescript.Proofs.Layout.Written
import Tunescript.Proofs.Number.Rational

/-!
# Widths of lines

In exact arithmetic the columns between two times add up (`widthBetween_add`), so that the widths of
the notes on a line, which follow one another from bar to bar, add up to the widths of what they
fill of its measures (`along_width`).  How a line divides its measures into notes does not matter.
-/

namespace Tunescript.Layout

open Scalar (atMost_rat_iff atMost_rat_eq_false_iff less_rat_iff sum_rat)

section Between

variable {a b c : Rat}

theorem liesWithin_iff {s : Segment Rat} :
  s.liesWithin a b ↔ a ≤ (s.start + s.stop) / 2 ∧ (s.start + s.stop) / 2 < b
  := by
  rw [Segment.liesWithin, Bool.and_eq_true, atMost_rat_iff, less_rat_iff]
  exact Iff.rfl

theorem widthBetween_nil :
  widthBetween [] a b = 0
  := rfl

theorem widthBetween_cons (s : Segment Rat) (ss : List (Segment Rat)) :
  widthBetween (s :: ss) a b = (if s.liesWithin a b then s.width else 0) + widthBetween ss a b
  := by
  rw [widthBetween, widthBetween, sum_rat, sum_rat, List.filter_cons]
  split
  · rw [List.map_cons, List.sum_cons]
  · rw [zero_add]

/-- The columns between two times and those from there to a third add up. -/
theorem widthBetween_add (segments : List (Segment Rat)) (hab : a ≤ b) (hbc : b ≤ c) :
  widthBetween segments a b + widthBetween segments b c = widthBetween segments a c
  := by
  induction segments with
  | nil => rw [widthBetween_nil, widthBetween_nil, widthBetween_nil, add_zero]
  | cons s ss ih =>
    rw [widthBetween_cons, widthBetween_cons, widthBetween_cons, ← ih]
    -- The middle of the segment lies on one side of the time in between.
    obtain hmiddle | hmiddle := lt_or_ge ((s.start + s.stop) / 2) b
    · have hlater : ¬s.liesWithin b c := by
        rw [liesWithin_iff]
        intro h
        apply hmiddle.not_ge h.1
      have hearlier : s.liesWithin a b ↔ s.liesWithin a c := by
        rw [liesWithin_iff, liesWithin_iff]
        have := hmiddle.trans_le hbc
        tauto
      rw [if_neg hlater]
      simp only [hearlier]
      ring
    · have hearlier : ¬s.liesWithin a b := by
        rw [liesWithin_iff]
        intro h
        apply hmiddle.not_gt h.2
      have hlater : s.liesWithin b c ↔ s.liesWithin a c := by
        rw [liesWithin_iff, liesWithin_iff]
        have := hab.trans hmiddle
        tauto
      rw [if_neg hearlier]
      simp only [hlater]
      ring

theorem widthBetween_self (segments : List (Segment Rat)) :
  widthBetween segments a a = 0
  := by
  have h := widthBetween_add segments (le_refl a) (le_refl a)
  linarith

end Between

/-- What the commands of a line add up to, each taken after the bars and at the time that those
before it make. -/
def along (f : Nat → Rat → Command → Rat) (bars : Nat) (time : Rat) : List Command → Rat
  | [] => 0
  | c :: cs => f bars time c + along f (barsAfter bars c) (timeAfter time c) cs

/-- The lengths of the measures that commands fill from the given time on, the last of them up to
the end of the commands. -/
def measureLengths (time : Rat) : List Command → List Rat
  | [] => [time]
  | c :: cs =>
    if c.verb = .measure then time :: measureLengths 0 cs else measureLengths (timeAfter time c) cs

/-- The command is a bar, or a note that has a length. -/
def BarOrNote (c : Command) : Prop :=
  c.verb = .measure ∨ c.verb.isNote ∧ 0 < (NoteLength.quarters c.noun : Rat)

instance (c : Command) : Decidable (BarOrNote c) := inferInstanceAs (Decidable (_ ∨ _))

theorem ne_of_isNote {v w : Verb} (hv : v.isNote) (hw : w.isNote = false) :
  v ≠ w
  := by
  rintro rfl
  cases hv.symm.trans hw

section Along

variable {bars : Nat} {time : Rat} {c : Command} {cs : List Command}

theorem along_add (f g : Nat → Rat → Command → Rat) :
  along (fun b t c => f b t c + g b t c) bars time cs = along f bars time cs + along g bars time cs
  := by
  induction cs generalizing bars time with
  | nil => rw [along, along, along, add_zero]
  | cons c cs ih =>
    rw [along, along, along, ih]
    ring

theorem le_barsAfter (bars : Nat) (c : Command) :
  bars ≤ barsAfter bars c
  := by
  rw [barsAfter]
  split
  · apply Nat.le_succ
  · apply le_rfl

theorem le_foldl_barsAfter (bars : Nat) (cs : List Command) :
  bars ≤ cs.foldl barsAfter bars
  := by
  induction cs generalizing bars with
  | nil => apply le_rfl
  | cons c cs ih => apply (le_barsAfter bars c).trans (ih _)

theorem barsAfter_of_isNote (h : c.verb.isNote) :
  barsAfter bars c = bars
  := if_neg (ne_of_isNote h rfl)

/-- A note that has a length takes the time on by it. -/
theorem timeAfter_of_isNote (h : c.verb.isNote) (hlength : 0 < (NoteLength.quarters c.noun : Rat)) :
  timeAfter time c = time + NoteLength.quarters c.noun
  := by
  obtain ⟨verb, noun⟩ := c
  cases verb with
  | note name =>
    rw [timeAfter]
    dsimp only
    rw [Scalar.zero_rat, atMost_rat_eq_false_iff.mpr hlength]
    rfl
  | _ => cases h

variable (layouts : List (List (Segment Rat)))

/-- The width of the columns between two times in the numbered measure, none if it has no layout. -/
def widthIn (measure : Nat) (start stop : Rat) : Rat :=
  widthBetween (layouts[measure]?.getD []) start stop

/-- The width of the columns under a command, none if it is no note. -/
def width (bars : Nat) (time : Rat) (c : Command) : Rat :=
  if c.verb.isNote then widthIn layouts (bars - 1) time (timeAfter time c) else 0

/-- The width of measures of the given lengths, the first after the given number of bars. -/
def widthOf (bars : Nat) : List Rat → Rat
  | [] => 0
  | l :: ls => widthIn layouts (bars - 1) 0 l + widthOf (bars + 1) ls

/-- The widths under the notes of a line add up to those of the measures that they fill. -/
theorem along_width (hcs : ∀ c ∈ cs, BarOrNote c) (htime : 0 ≤ time) :
  widthIn layouts (bars - 1) 0 time + along (width layouts) bars time cs =
    widthOf layouts bars (measureLengths time cs)
  := by
  induction cs generalizing bars time with
  | nil => rw [along, measureLengths, widthOf, widthOf]
  | cons c cs ih =>
    obtain ⟨hc, hcs⟩ := List.forall_mem_cons.mp hcs
    rw [along, measureLengths]
    obtain hbar | ⟨hnote, hlength⟩ := hc
    · have hstart : widthIn layouts (bars + 1 - 1) 0 0 + along (width layouts) (bars + 1) 0 cs =
          widthOf layouts (bars + 1) (measureLengths 0 cs) := ih hcs (le_refl 0)
      rw [widthIn, widthBetween_self, zero_add] at hstart
      have hbars : barsAfter bars c = bars + 1 := if_pos hbar
      have hzero : timeAfter time c = 0 := by
        rw [timeAfter, hbar]
        rfl
      have hwidth : width layouts bars time c = 0 := by
        rw [width, hbar]
        rfl
      rw [if_pos hbar, widthOf, hbars, hzero, hstart, hwidth, zero_add]
    · have hlater : time ≤ timeAfter time c := by
        rw [timeAfter_of_isNote hnote hlength]
        linarith
      rw [if_neg (ne_of_isNote hnote rfl), barsAfter_of_isNote hnote, ← ih hcs (htime.trans hlater),
        width, if_pos hnote, ← add_assoc, widthIn, widthIn, widthIn,
          widthBetween_add _ htime hlater]

/-- The widths under the notes of a line depend only on the lengths of its measures. -/
theorem along_width_eq (hcs : ∀ c ∈ cs, BarOrNote c) :
  along (width layouts) 0 0 cs = widthOf layouts 0 (measureLengths 0 cs)
  := by
  rw [← along_width layouts hcs (le_refl 0), widthIn, widthBetween_self, zero_add]

end Along

end Tunescript.Layout
