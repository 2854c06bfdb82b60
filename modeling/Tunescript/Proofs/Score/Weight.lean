import Tunescript.Proofs.Score.Joined
import Tunescript.Proofs.Score.Shape

/-!
# The weight of commands

The weight of a list of commands is a number that joining its checkpoints leaves as it is
(`weight_joined`).  Writing a line and reading it again never adds to it, so that a list which has
become lighter somewhere cannot be the same again.  Commands that do not come back as they were are
therefore heavier than what they come back as: a measure that was read from a note, a remark that
was read from a note, and a reset with dashes in front of its noun.
-/

namespace Tunescript

open Score
open Text (isBlank)

namespace Text

/-- Whether a character is a dash or a blank. -/
def isLead (c : Char) : Bool := c == '-' || isBlank c

/-- The number of dashes and blanks at the start of a text. -/
def lead (t : Text) : Nat := (t.takeWhile isLead).length

theorem lead_cons {c : Char} (hc : isLead c) (t : Text) :
  lead (c :: t) = lead t + 1
  := by
  rw [lead, List.takeWhile_cons_of_pos hc]
  rfl

theorem lead_cons_of_not_lead {c : Char} (hc : isLead c = false) (t : Text) :
  lead (c :: t) = 0
  := by
  rw [lead, List.takeWhile_cons_of_neg (Bool.eq_false_iff.mp hc)]
  rfl

theorem lead_dropWhile_le {p : Char → Bool} (hp : ∀ c, p c → isLead c) (t : Text) :
  lead (t.dropWhile p) ≤ lead t
  := by
  induction t with
  | nil => apply le_rfl
  | cons c t ih =>
    rw [List.dropWhile_cons]
    split
    · rename_i hc
      rw [lead_cons (hp c hc)]
      apply Nat.le_succ_of_le ih
    · apply le_rfl

theorem lead_prefix_le {t u : Text} (h : t <+: u) :
  lead t ≤ lead u
  := by
  obtain ⟨v, rfl⟩ := h
  rw [lead, lead, List.takeWhile_append]
  split
  · rename_i hall
    rw [List.length_append, hall]
    apply Nat.le_add_right
  · apply le_rfl

theorem lead_trim_le (t : Text) :
  lead (trim t) ≤ lead t
  := by
  apply (lead_prefix_le (trimEnd_prefix_self (trimStart t))).trans
  apply lead_dropWhile_le
  intro c hc
  rw [isLead, hc, Bool.or_true]

end Text

/-- The weight of a noun that may be of one kind only to come back as it is. -/
def kindWeight (kept : Bool) : Nat := if kept then 1 else 2

theorem kindWeight_pos (kept : Bool) :
  0 < kindWeight kept
  := by
  cases kept <;> decide

theorem kindWeight_le (kept : Bool) :
  kindWeight kept ≤ 2
  := by
  cases kept <;> decide

/-- The weight of a command. -/
def Command.weight (c : Command) : Nat :=
  match c.verb with
  | .checkpoint => 0
  | .measure => kindWeight (c.noun == ['|'])
  | .comment => kindWeight (!isLengthText c.noun)
  | .reset => kindWeight (!isLengthText c.noun) + 2 * c.noun.lead
  | _ => 1

namespace Score

/-- The weight of a list of commands. -/
def weight : List Command → Nat
  | [] => 0
  | c :: cs => c.weight + weight cs

@[simp]
theorem weight_nil :
  weight [] = 0
  := rfl

@[simp]
theorem weight_cons (c : Command) (cs : List Command) :
  weight (c :: cs) = c.weight + weight cs
  := rfl

theorem weight_append (cs ds : List Command) :
  weight (cs ++ ds) = weight cs + weight ds
  := by
  induction cs with
  | nil => rw [List.nil_append, weight_nil, Nat.zero_add]
  | cons c cs ih => rw [List.cons_append, weight_cons, weight_cons, ih, Nat.add_assoc]

theorem weight_checkpoint {c : Command} (h : c.verb = .checkpoint) :
  c.weight = 0
  := by
  rw [Command.weight, h]

/-- Every command other than a checkpoint has a weight. -/
theorem weight_pos {c : Command} (h : c.verb ≠ .checkpoint) :
  0 < c.weight
  := by
  obtain ⟨verb, noun⟩ := c
  cases verb with
  | checkpoint => cases h rfl
  | measure => apply kindWeight_pos
  | comment => apply kindWeight_pos
  | reset => apply Nat.add_pos_left (kindWeight_pos _)
  | _ => apply Nat.one_pos

theorem weight_join (c : Command) (cs : List Command) :
  weight (join c cs) = c.weight + weight cs
  := by
  rw [join]
  split
  · rename_i h
    rw [weight_checkpoint h, Nat.zero_add]
    split
    · rfl
    · rw [weight_cons, weight_checkpoint verb_oneStar, Nat.zero_add]
  · apply weight_cons

@[simp]
theorem weight_joined (cs : List Command) :
  weight (joined cs) = weight cs
  := by
  induction cs with
  | nil => rfl
  | cons c cs ih => rw [joined_cons, weight_join, ih, weight_cons]

theorem weight_congr {cs ds : List Command} (h : joined cs = joined ds) :
  weight cs = weight ds
  := by
  rw [← weight_joined cs, h, weight_joined]

theorem weight_eq_zero {cs : List Command} :
  weight cs = 0 ↔ ∀ c ∈ cs, c.verb = .checkpoint
  := by
  induction cs with
  | nil => simp
  | cons c cs ih =>
    rw [weight_cons, Nat.add_eq_zero_iff, ih, List.forall_mem_cons]
    apply and_congr_left
    intro _
    constructor
    · intro h
      by_contra hverb
      apply Nat.ne_of_gt (weight_pos hverb) h
    · apply weight_checkpoint

end Score

end Tunescript
