import Tunescript.Proofs.Text.Rows

/-!
# Ranges of a text

What stands between two positions of a text, what is in front of it and what is behind it make the
text (`take_append_range`).  If something else is put in the place of a range, it is what stands
there then (`slice_append`), and what is in front and behind is as before (`take_splice`,
`drop_splice`).
-/

namespace Tunescript.Text

/-- A range of a text stands between what is in front of it and what is behind it. -/
theorem take_append_range (t : Text) {start stop : Nat} (h : start ≤ stop) :
  t.take start ++ (t.take stop).drop start ++ t.drop stop = t
  := by
  have hfront : t.take start = (t.take stop).take start := by
    rw [List.take_take, Nat.min_eq_left h]
  rw [hfront, List.take_append_drop, List.take_append_drop]

section Splice

variable {t u : Text} {start stop : Nat}

theorem take_splice (hstart : start ≤ t.length) (u b : Text) :
  (t.take start ++ u ++ b).take start = t.take start
  := by
  rw [List.append_assoc]
  apply List.take_left'
  rw [List.length_take, Nat.min_eq_left hstart]

theorem drop_splice (hstart : start ≤ t.length) (hu : start + u.length = stop) (b : Text) :
  (t.take start ++ u ++ b).drop stop = b
  := by
  apply List.drop_left'
  rw [List.length_append, List.length_take, Nat.min_eq_left hstart, hu]

end Splice

/-- A part of a text is what stands between its start and its end. -/
theorem slice_append (a u b : Text) :
  slice (a ++ u ++ b) a.length (some (a.length + u.length : Nat)) = u
  := by
  have hstop : a.length + u.length ≤ (a ++ u ++ b).length := by
    rw [← List.length_append]
    apply (List.prefix_append (a ++ u) b).length_le
  rw [slice_natCast _ (Nat.le_trans (Nat.le_add_right _ _) hstop) hstop, ← List.length_append,
    List.take_left, List.drop_left]

end Tunescript.Text
