import Tunescript.Proofs.Editor.CurrentLine
import Tunescript.Proofs.Editor.LinearHistory

/-!
# Checkpoint lines

A checkpoint is drawn in an empty line that is prepared for it behind a blank one
(`meets_insertCheckpoint`).  So the line of stars comes between the lines that were there, and none
in which something is written is lost or comes to stand on the other side of another
(`inserts_checkpoint`).
-/

namespace Tunescript

namespace Action

variable {s : Session} {before after : List Text} {line : Text} {column : Nat} {E : Session → Prop}

/-- In an empty line a checkpoint is drawn with two lines below it, unless its stars do not fit into
memory. -/
theorem meets_drawCheckpoint [Memory] {length : Int} {Q : Unit → Session → Prop}
    (hs : s.Within before [] after 0) (hE : ∀ f, Capacity.ofText length = .error f → E s)
    (hQ : ∀ (n : Nat) (t : Session), Capacity.ofText length = .ok n →
      t.Within (before ++ [List.replicate n Score.checkpointMark, []]) [] after 0 → Q () t) :
  Meets (drawCheckpoint length) s E Q
  := by
  rw [drawCheckpoint]
  cases hfit : Capacity.ofText length with
  | error f =>
    apply meets_bind
    apply meets_throw rfl
    apply hE f hfit
  | ok n =>
    have hfree : '\n' ∉ List.replicate n Score.checkpointMark := by
      intro hmem
      cases List.eq_of_mem_replicate hmem
    apply meets_bind
    apply meets_putSnippet hs.cursor hs.cursor_le
    intro b message hb _
    have hstars : Session.Within { s with
        buffer := b
        cursor := ((Text.above before).length + 0 +
          (List.replicate n Score.checkpointMark).length : Nat)
        message := message } before (List.replicate n Score.checkpointMark) after n := by
      have haround : b.text.Around before (List.replicate n Score.checkpointMark) after := by
        rw [hb]
        apply hs.write hfree
      use haround
      · rw [List.length_replicate]
        rfl
      · rw [List.length_replicate]
    apply meets_bind
    apply meets_openLine hstars
    intro b c hc
    apply meets_bind
    apply meets_openLine hc
    intro b c hc
    rw [List.append_assoc] at hc
    apply meets_say
    apply hQ n _ hfit
    use hc.toAround, hc.cursor, hc.column_le

/-- A checkpoint is drawn in an empty line behind everything that is written up to the line of the
cursor, and behind a blank line if there are lines above. -/
theorem meets_insertCheckpoint [Memory] {length : Option Int} {Q : Unit → Session → Prop}
    (hs : s.Within before line after column)
    (h : ∀ (ls : List Text) (t : Session), Text.written ls = Text.written (before ++ [line]) →
      (∀ l, ls.getLast? = some l → Text.trim l = []) → t.Within ls [] after 0 →
        Meets (drawCheckpoint (length.getD s.settings.checkpointLength)) t E Q) :
  Meets (insertCheckpoint length) s E Q
  := by
  apply meets_bind
  apply meets_modify
  apply meets_bind
  apply meets_get
  apply meets_bind
  apply meets_prepareLine (s := { s with history := s.history.record s.now })
    ⟨hs.toAround, hs.cursor, hs.column_le⟩
  intro ls b c hwritten ht
  apply meets_bind
  apply meets_currentLine_within ht
  obtain rfl | ⟨ls, l, rfl⟩ := List.eq_nil_or_concat' ls
  · apply h [] _ hwritten _ ht
    rintro l ⟨⟩
  · rw [if_pos (by simp)]
    have hrow : (ls ++ [l]).length - 1 = ls.length := by
      simp
    rw [hrow]
    apply meets_bind
    apply meets_lineText_around ht.up
    rw [Text.isEmpty_trim_row]
    split
    · apply meets_bind
      apply meets_openLine ht
      intro b c hc
      apply h _ _ _ _ hc
      · rw [Text.written_append, hwritten]
        apply List.append_nil
      · intro m hm
        rw [List.getLast?_concat, Option.some.injEq] at hm
        rw [← hm]
        rfl
    · rename_i hblank
      apply h _ _ hwritten _ ht
      intro m hm
      rw [List.getLast?_concat, Option.some.injEq] at hm
      rw [← hm]
      simpa using hblank

end Action

namespace Session

/-- A line of stars stands by itself: the line above it, if there is one, is blank, the two lines
below it are empty, and the cursor is at the start of the second of these. -/
structure Marks (t : Session) (stars : Text) (k : Nat) : Prop where
  /-- The line has the stars and nothing else. -/
  stars : (Text.contents t.text)[k]? = some stars
  /-- The line above is blank. -/
  above : 0 < k → ∃ l, (Text.contents t.text)[k - 1]? = some l ∧ Text.trim l = []
  /-- The first line below is empty. -/
  first : (Text.contents t.text)[k + 1]? = some []
  /-- The second line below is empty. -/
  second : (Text.contents t.text)[k + 2]? = some []
  /-- The cursor is at the start of the second line below. -/
  cursor : ∃ c, t.buffer.lineStart (k + 2 : Nat) = .ok c ∧ t.cursor = c

variable {s t : Session} {stars : Text} {before after ls : List Text} {line : Text} {column : Nat}

theorem Within.marks (h : t.Within (ls ++ [stars, []]) [] after 0)
    (hblank : ∀ l, ls.getLast? = some l → Text.trim l = []) :
  t.Marks stars ls.length
  := by
  have hlength : (ls ++ [stars, []]).length = ls.length + 2 := by
    simp
  have hlines := h.contents_eq
  rw [List.append_assoc] at hlines
  constructor
  · rw [hlines, List.getElem?_append_right (Nat.le_refl _), Nat.sub_self]
    rfl
  · intro hpos
    have hlast := List.getLast?_eq_some_getLast (List.ne_nil_of_length_pos hpos)
    use ls.getLast (List.ne_nil_of_length_pos hpos)
    rw [hlines, List.getElem?_append_left (by omega), ← List.getLast?_eq_getElem?]
    use hlast, hblank _ hlast
  · rw [hlines, List.getElem?_append_right (Nat.le_add_right _ _), Nat.add_sub_cancel_left]
    rfl
  · rw [hlines, List.getElem?_append_right (Nat.le_add_right _ _), Nat.add_sub_cancel_left]
    rfl
  · use (Text.above (ls ++ [stars, []])).length
    rw [← hlength, t.buffer.lineStart_eq_ok h.lt_length_rows]
    use congrArg (fun u : Text => Except.ok u.length) h.rowsBefore_eq, h.cursor

/-- A line of stars is not blank. -/
theorem written_stars {n : Nat} (hn : 1 ≤ n) :
  Text.written [List.replicate n Score.checkpointMark] = [List.replicate n Score.checkpointMark]
  := by
  have hstar : Text.isBlank Score.checkpointMark = false := rfl
  have hsome : n ≠ 0 := Nat.one_le_iff_ne_zero.mp hn
  apply List.filter_cons_of_pos
  rw [Text.isEmpty_trim, List.all_replicate, if_neg hsome, hstar]
  rfl

section Inserted

variable {length : Option Int} {n : Nat} (hs : s.Within before line after column)
  (hlength : length.getD s.settings.checkpointLength = n)

include hs hlength

/-- If its stars fit into memory, a checkpoint line is inserted. -/
theorem exists_perform?_insertCheckpoint [Memory] (hfit : n < Memory.size) :
  ∃ t ls, s.perform? (.edit (.insertCheckpoint length)) = some t ∧
    Text.written ls = Text.written (before ++ [line]) ∧
      (∀ l, ls.getLast? = some l → Text.trim l = []) ∧
    t.Within (ls ++ [List.replicate n Score.checkpointMark, []]) [] after 0
  := by
  have hmeets :
      (Operation.edit (.insertCheckpoint length)).action.Meets s (fun _ => False) fun _ t =>
      ∃ ls, Text.written ls = Text.written (before ++ [line]) ∧
        (∀ l, ls.getLast? = some l → Text.trim l = []) ∧
        t.Within (ls ++ [List.replicate n Score.checkpointMark, []]) [] after 0 := by
    apply Action.meets_insertCheckpoint hs
    intro ls t hwritten hblank ht
    rw [hlength]
    apply Action.meets_drawCheckpoint ht
    · intro f hf
      obtain ⟨m, hm⟩ := (Capacity.exists_ofText_iff n).mpr hfit
      rw [hf] at hm
      cases hm
    · intro m u hm hu
      rw [Capacity.eq_of_ofText hm, Int.toNat_natCast] at hu
      exact ⟨ls, hwritten, hblank, hu⟩
  obtain ⟨t, hperform, ls, h⟩ := exists_perform?_of_meets hmeets
  exact ⟨t, ls, hperform, h⟩

/-- If its stars do not fit into memory, no checkpoint line is inserted, and what was written is
still there. -/
theorem perform?_insertCheckpoint_eq_none [Memory] (hfull : Memory.size ≤ n) :
  s.perform? (.edit (.insertCheckpoint length)) = none ∧
    Text.written (Text.contents (s.perform (.edit (.insertCheckpoint length))).text) =
      Text.written (Text.contents s.text)
  := by
  apply perform?_eq_none_of_meets
    (E := fun t : Session => Text.written (Text.contents t.text) =
      Text.written (Text.contents s.text))
  apply Action.meets_insertCheckpoint hs
  intro ls t hwritten _ ht
  rw [hlength]
  apply Action.meets_drawCheckpoint ht
  · intro _ _
    rw [hs.contents_eq, ht.contents_eq, List.append_cons before, Text.written_append,
      Text.written_append, hwritten]
    rfl
  · intro m _ hm _
    have hfit := (Capacity.exists_ofText_iff n).mp ⟨m, hm⟩
    omega

end Inserted

/-- Inserting a checkpoint line loses nothing.  A line of stars stands by itself, the lines in which
something is written up to the line of the cursor are above it, and the other such lines are below
it, all in order and without any other.  If the stars do not fit into memory, the operation fails,
and what was written is still there. -/
theorem inserts_checkpoint [Memory] {length : Option Int} {n : Nat}
    (hlength : length.getD s.settings.checkpointLength = n) (hn : 1 ≤ n)
    (hcursor : 0 ≤ s.cursor ∧ s.cursor ≤ s.text.length) :
  let op := Operation.edit (.insertCheckpoint length)
  let stars := List.replicate n Score.checkpointMark
  let old := Text.contents s.text
  ∃ i, s.buffer.lineAt s.cursor = .ok i ∧
    (n < Memory.size → ∃ t k, s.perform? op = some t ∧ t.Marks stars k ∧
      let new := Text.contents t.text
      Text.written (new.take k) = Text.written (old.take (i + 1)) ∧
      Text.written (new.drop (k + 1)) = Text.written (old.drop (i + 1)) ∧
      Text.written (new.eraseIdx k) = Text.written old ∧
      Text.written new = Text.written (old.take (i + 1)) ++ stars ::
        Text.written (old.drop (i + 1))) ∧
    (Memory.size ≤ n → s.perform? op = none ∧
      Text.written (Text.contents (s.perform op).text) = Text.written old)
  := by
  intro op stars old
  obtain ⟨before, line, after, column, hs⟩ := exists_within hcursor
  have hold : old = before ++ [line] ++ after := by
    rw [List.append_assoc]
    apply hs.contents_eq
  have hfirst : old.take (before.length + 1) = before ++ [line] := by
    rw [hold]
    apply List.take_left'
    simp
  have hrest : old.drop (before.length + 1) = after := by
    rw [hold]
    apply List.drop_left'
    simp
  use before.length, hs.lineAt_eq
  rw [hfirst, hrest]
  constructor
  · intro hfit
    obtain ⟨t, ls, hperform, hwritten, hblank, ht⟩ :=
      exists_perform?_insertCheckpoint hs hlength hfit
    have hnew : Text.contents t.text = ls ++ [stars] ++ [] :: [] :: after := by
      rw [ht.contents_eq]
      simp [stars]
    have hstars : Text.written [stars] = [stars] := written_stars hn
    have hempty : Text.written ([] :: [] :: after) = Text.written after := rfl
    refine ⟨t, ls.length, hperform, ht.marks hblank, ?_, ?_, ?_, ?_⟩
    · rw [hnew, List.append_assoc, List.take_left, hwritten]
    · rw [hnew, List.drop_left' (by simp), hempty]
    · rw [hnew, List.append_assoc, List.eraseIdx_append_of_length_le (Nat.le_refl _), Nat.sub_self,
        hold, Text.written_append, Text.written_append, hwritten]
      rfl
    · rw [hnew, Text.written_append, Text.written_append, hwritten, hstars, hempty,
        List.append_assoc]
      rfl
  · apply perform?_insertCheckpoint_eq_none hs hlength

/-- A session in a blank line between two others. -/
def blankLine : Session := { blank with buffer := Buffer.ofText "a\n \nb".toList, cursor := 2 }

attribute [local instance] Memory.sixteenGigabytes in
/-- Three stars come between the two lines in which something is written. -/
theorem inserts_checkpoint_blankLine :
  (some 3).getD blankLine.settings.checkpointLength = (3 : Nat) ∧ 1 ≤ 3 ∧
    (0 ≤ blankLine.cursor ∧ blankLine.cursor ≤ blankLine.text.length) ∧
    ∃ t k, blankLine.perform? (.edit (.insertCheckpoint (some 3))) = some t ∧
      t.Marks "***".toList k ∧
      Text.written (Text.contents t.text) = ["a".toList, "***".toList, "b".toList]
  := by
  have hlength : (some 3).getD blankLine.settings.checkpointLength = (3 : Nat) := rfl
  have hcursor : 0 ≤ blankLine.cursor ∧ blankLine.cursor ≤ blankLine.text.length := by
    decide +kernel
  have hn : 1 ≤ 3 := by
    decide
  obtain ⟨i, hi, hfits, -⟩ := inserts_checkpoint hlength hn hcursor
  have hline : blankLine.buffer.lineAt blankLine.cursor = .ok 1 := by
    decide +kernel
  cases hi.symm.trans hline
  obtain ⟨t, k, hperform, hmarks, -, -, -, hwritten⟩ := hfits (by decide)
  refine ⟨hlength, hn, hcursor, t, k, hperform, hmarks, ?_⟩
  rw [hwritten]
  decide +kernel

end Session

end Tunescript
