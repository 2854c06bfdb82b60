import Tunescript.Proofs.Performance.Alignment
import Tunescript.Proofs.Score.Alike

/-!
# How far the measures reach

The measure that is being written lies between the one in front of the section and the furthest one,
and the section starts at most behind the furthest one (`Measures.InOrder`).  Every command keeps
this order, from which it follows that neither the furthest measure nor the start of the section
ever goes back; only bars reach further, each of them by at most one measure (`reach_of_run`).
-/

namespace Tunescript

namespace Measures

/-- The order in which the measures of a transport lie. -/
structure InOrder (m : Measures) : Prop where
  /-- The section starts at the first measure, unless there has been no checkpoint. -/
  neg_one_le_checkpoint : -1 ≤ m.checkpoint
  /-- The section starts at most behind the furthest measure. -/
  checkpoint_le_greatest : m.checkpoint ≤ m.greatest + 1
  /-- The measure that is being written is at least the one in front of the section. -/
  checkpoint_le_index : m.checkpoint - 1 ≤ m.index
  /-- The measure that is being written is at most the furthest one. -/
  index_le_greatest : m.index ≤ m.greatest

/-- The measures that commands lead to lie no further back, and at most as many measures further as
there are bars among the commands. -/
structure Advances (m n : Measures) (cs : List Command) : Prop where
  /-- The furthest measure stays or lies further. -/
  greatest_le : m.greatest ≤ n.greatest
  /-- It lies further by at most one measure for each bar. -/
  greatest_le_add_bars : n.greatest ≤ m.greatest + bars cs
  /-- The section starts where it did, or further on. -/
  checkpoint_le : m.checkpoint ≤ n.checkpoint

variable {m : Measures} {cs : List Command}

theorem inOrder_initial :
  initial.InOrder
  := by
  constructor <;> decide

/-- A command keeps the order of the measures. -/
theorem InOrder.next (h : m.InOrder) (c : Command) :
  (m.next c).InOrder
  := by
  obtain ⟨hcheckpoint, hsection, hindex, hgreatest⟩ := h
  obtain ⟨verb, noun⟩ := c
  cases verb with
  | checkpoint => constructor <;> dsimp only [Measures.next] <;> omega
  | measure => constructor <;> dsimp only [Measures.next] <;> omega
  | reset => constructor <;> dsimp only [Measures.next] <;> omega
  | _ => exact ⟨hcheckpoint, hsection, hindex, hgreatest⟩

/-- Only a bar leads further, and by at most one measure. -/
theorem InOrder.advances_next (h : m.InOrder) (c : Command) :
  m.Advances (m.next c) [c]
  := by
  obtain ⟨hcheckpoint, hsection, hindex, hgreatest⟩ := h
  obtain ⟨verb, noun⟩ := c
  cases verb with
  | measure =>
    have hbars : bars [⟨.measure, noun⟩] = 1 := rfl
    constructor <;> dsimp only [Measures.next] <;> omega
  | checkpoint => constructor <;> dsimp only [Measures.next] <;> omega
  | _ => constructor <;> dsimp only [Measures.next] <;> omega

theorem InOrder.after (h : m.InOrder) (cs : List Command) :
  (m.after cs).InOrder
  := by
  induction cs generalizing m with
  | nil => exact h
  | cons c cs ih => apply ih (h.next c)

/-- Commands lead further by at most one measure for each bar. -/
theorem InOrder.advances_after (h : m.InOrder) (cs : List Command) :
  m.Advances (m.after cs) cs
  := by
  induction cs generalizing m with
  | nil => constructor <;> simp [bars]
  | cons c cs ih =>
    have hbars : bars (c :: cs) = bars [c] + bars cs := by
      rw [Nat.add_comm]
      simp [bars, List.countP_cons]
    obtain ⟨hle, hbar, hsection⟩ := h.advances_next c
    obtain ⟨hle', hbar', hsection'⟩ := ih (h.next c)
    rw [after_cons]
    constructor <;> omega

end Measures

namespace Performance

variable {α : Type} [Scalar α]

/-- Behind every command that is played the measures lie in order.  Whatever is played behind it
leads neither the furthest measure nor the start of the section back, and leads the furthest measure
on by at most one for each bar. -/
theorem reach_of_run [Memory] (playback : Playback) {cs : List Command} {p : Performance α}
    (h : run playback cs = .ok p) :
  (-1 ≤ p.transport.checkpointIndex ∧
    p.transport.checkpointIndex ≤ p.transport.greatestIndex + 1 ∧
    p.transport.checkpointIndex - 1 ≤ p.transport.measureIndex ∧
    p.transport.measureIndex ≤ p.transport.greatestIndex) ∧
  ∀ (ds : List Command) (q : Performance α), run playback (cs ++ ds) = .ok q →
    p.transport.greatestIndex ≤ q.transport.greatestIndex ∧
    q.transport.greatestIndex ≤ p.transport.greatestIndex + bars ds ∧
    p.transport.checkpointIndex ≤ q.transport.checkpointIndex
  := by
  have horder : p.transport.measures.InOrder := by
    rw [measures_run h]
    apply Measures.inOrder_initial.after
  constructor
  · exact ⟨horder.neg_one_le_checkpoint, horder.checkpoint_le_greatest, horder.checkpoint_le_index,
      horder.index_le_greatest⟩
  · intro ds q hq
    have hmeasures : q.transport.measures = p.transport.measures.after ds := by
      rw [measures_run hq, measures_run h, Measures.after_append]
    have hadvances := horder.advances_after ds
    rw [← hmeasures] at hadvances
    exact ⟨hadvances.greatest_le, hadvances.greatest_le_add_bars, hadvances.checkpoint_le⟩

attribute [local instance] Memory.sixteenGigabytes in
/-- Behind a reset that stands in front of all checkpoints, the bars come to the first measure
again, and the second section starts behind it. -/
theorem reach_of_run_earlyReset :
  let bar : Command := ⟨.measure, ['|']⟩
  let star : Command := ⟨.checkpoint, ['*']⟩
  let reset : Command := ⟨.reset, []⟩
  let note : Command := ⟨.note "An_4".toList, "1/4".toList⟩
  ∃ p q : Performance Rat,
    run {} [reset, bar, note, bar, note] = .ok p ∧
    run {} ([reset, bar, note, bar, note] ++ [reset, bar, star, bar, reset, bar]) = .ok q ∧
    p.transport.measureIndex ≤ p.transport.greatestIndex ∧
    p.transport.greatestIndex ≤ q.transport.greatestIndex ∧
    q.transport.greatestIndex ≤ p.transport.greatestIndex + 3
  := by
  intro bar star reset note
  have hfirst : (run {} [reset, bar, note, bar, note] :
      Except RunError (Performance Rat)).isOk := by
    decide +kernel
  have hsecond : (run {} ([reset, bar, note, bar, note] ++ [reset, bar, star, bar, reset, bar]) :
      Except RunError (Performance Rat)).isOk := by
    decide +kernel
  obtain ⟨p, hp⟩ := Score.exists_of_isOk hfirst
  obtain ⟨q, hq⟩ := Score.exists_of_isOk hsecond
  obtain ⟨⟨-, -, -, hindex⟩, hlater⟩ := reach_of_run {} hp
  obtain ⟨hgreatest, hbars, -⟩ := hlater _ q hq
  exact ⟨p, q, hp, hq, hindex, hgreatest, hbars⟩

end Performance

end Tunescript
