import Tunescript.Proofs.Editor.CurrentLine
import Tunescript.Proofs.Editor.Operation
import Tunescript.Proofs.Score.Spans

/-!
# The cursor stays in the text

A session is valid if its cursor lies in its text and if this is so in every moment of its history
as well (`Session.Valid`).  An action that keeps a session valid without asking for a position or a
line that does not exist settles (`Action.Settles`).  Every edit settles, however many changes it is
made of: the changes move the cursor along with the text, or put it back into the text at the end.
Transposing is not among the edits here; see `Tunescript.Proofs.Editor.CursorRuns`.
-/

namespace Tunescript

/-- The cursor of a recorded moment lies in its text. -/
def InText (m : Snapshot × Int) : Prop := 0 ≤ m.2 ∧ m.2 ≤ m.1.flatten.length

theorem inText_natCast {b : Buffer} {c : Nat} (h : c ≤ b.text.length) :
  InText (b.snapshot, (c : Int))
  := ⟨Int.natCast_nonneg c, Int.ofNat_le.mpr h⟩

namespace Session

theorem Within.inText {s : Session} {before after : List Text} {line : Text} {column : Nat}
    (h : s.Within before line after column) :
  InText s.now
  := by
  rw [now, h.cursor]
  apply inText_natCast h.cursor_le

/-- The cursor lies in the text, now and in every moment of the history. -/
structure Valid (s : Session) : Prop where
  /-- The cursor lies in the text. -/
  now : InText s.now
  /-- So it does after going back. -/
  past : ∀ m ∈ s.history.past, InText m
  /-- So it does after going forth. -/
  future : ∀ m ∈ s.history.future, InText m

theorem Valid.exists_cursor {s : Session} (h : s.Valid) :
  ∃ c : Nat, s.cursor = c ∧ c ≤ s.text.length
  := by
  obtain ⟨⟨hpos, hle⟩, -, -⟩ := h
  obtain ⟨c, hc⟩ := Int.eq_ofNat_of_zero_le hpos
  use c, hc
  apply Int.ofNat_le.mp
  rw [← hc]
  apply hle

/-- A step of the history records a cursor in its text. -/
theorem Valid.record {s : Session} (hs : s.Valid) :
  Valid { s with history := s.history.record s.now }
  := by
  constructor
  · apply hs.now
  · intro m hm
    obtain rfl | hm := List.mem_cons.mp hm
    · apply hs.now
    · apply hs.past m hm
  · intro m hm
    cases hm

theorem Valid.of_record {s t : Session} (hs : s.Valid) (hnow : InText t.now)
    (hhistory : t.history = s.history.record s.now) :
  t.Valid
  := by
  refine ⟨hnow, ?_, ?_⟩
  · rw [hhistory]
    apply hs.record.past
  · rw [hhistory]
    apply hs.record.future

theorem Valid.of_sameMoment {s : Session} (hs : s.Valid) (t : Session) (h : s.SameMoment t) :
  t.Valid
  := by
  obtain ⟨hnow, hhistory⟩ := h
  constructor
  · rw [hnow]
    apply hs.now
  · rw [hhistory]
    apply hs.past
  · rw [hhistory]
    apply hs.future

end Session

namespace Action

/-- The action keeps the cursor in the text, and no position or line that it asks for is
missing. -/
def Settles {α : Type} (a : Action α) : Prop :=
  ∀ s : Session, s.Valid → a.Meets s Session.Valid fun _ => Session.Valid

theorem settles_bind {α β : Type} {a : Action α} {f : α → Action β} (ha : a.Settles)
    (hf : ∀ x, (f x).Settles) :
  (a >>= f).Settles
  := by
  intro s hs
  apply meets_bind
  apply (ha s hs).imp
  intro x t ht
  apply hf x t ht

theorem settles_openLine :
  Settles openLine
  := by
  intro s hs
  obtain ⟨before, line, after, column, hwithin⟩ := Session.exists_within hs.now
  apply meets_openLine hwithin
  intro b c hc
  use hc.inText, hs.past, hs.future

theorem settles_prepareLine :
  Settles prepareLine
  := by
  intro s hs
  obtain ⟨before, line, after, column, hwithin⟩ := Session.exists_within hs.now
  apply meets_prepareLine hwithin
  intro ls b c _ hc
  use hc.inText, hs.past, hs.future

/-- What changes neither the text nor the cursor nor the history keeps the cursor in the text. -/
theorem Rests.settles {α : Type} {a : Action α} (ha : a.Rests) :
  a.Settles
  := by
  intro s hs
  apply (ha s).mono
  · apply hs.of_sameMoment
  · intro _
    apply hs.of_sameMoment

theorem settles_say (message : String) :
  Settles (say message)
  := (rests_say message).settles

theorem settles_putSnippet (t : Text) :
  Settles (putSnippet t)
  := by
  intro s hs
  obtain ⟨c, hc, hle⟩ := hs.exists_cursor
  apply meets_putSnippet hc hle
  intro b message hb hlen
  refine ⟨inText_natCast ?_, hs.past, hs.future⟩
  dsimp only
  omega

/-- An edit that keeps the cursor in the text does so with its step of the history. -/
theorem settles_edit {a : Action Unit} (ha : Settles a) :
  Settles (edit a)
  := by
  intro s hs
  apply meets_bind
  apply meets_modify
  apply ha _ hs.record

theorem settles_insertChar (t : Text) :
  Settles (insertChar t)
  := by
  apply settles_edit
  intro s hs
  obtain ⟨c, hc, hle⟩ := hs.exists_cursor
  apply meets_bind
  apply meets_get
  rw [hc]
  apply meets_bind
  apply meets_insertAt hle
  intro b hb hlen
  apply meets_modify
  refine ⟨?_, hs.past, hs.future⟩
  dsimp only
  rw [hc]
  apply inText_natCast (c := c + t.length)
  dsimp only
  omega

theorem settles_deleteChar :
  Settles deleteChar
  := by
  apply settles_edit
  intro s hs
  obtain ⟨c, hc, hle⟩ := hs.exists_cursor
  apply meets_bind
  apply meets_get
  dsimp only
  rw [hc]
  cases c with
  | zero =>
    apply meets_pure
    apply hs
  | succ c =>
    have hpos : (0 : Int) < ((c + 1 : Nat) : Int) := by omega
    have hpred : ((c + 1 : Nat) : Int) - 1 = c := by omega
    rw [if_pos hpos, hpred]
    apply meets_bind
    apply meets_removeRange (Nat.le_succ c) hle
    intro b hb hlen
    apply meets_moveTo
    refine ⟨inText_natCast ?_, hs.past, hs.future⟩
    dsimp only
    omega

/-- However the text changes, the cursor is put back into it. -/
theorem meets_keepCursor {s : Session} (hs : s.Valid) (b : Buffer) {Q : Unit → Session → Prop}
    (h : ∀ t : Session, t.Valid → Q () t) :
  Meets keepCursor { s with buffer := b } Session.Valid Q
  := by
  apply meets_modify
  apply h
  refine ⟨⟨?_, Int.min_le_right _ _⟩, hs.past, hs.future⟩
  apply Int.le_min.mpr
  exact ⟨hs.now.1, Int.natCast_nonneg _⟩

theorem settles_deleteLine :
  Settles deleteLine
  := by
  apply settles_edit
  intro s hs
  obtain ⟨c, hc, hle⟩ := hs.exists_cursor
  have hi := Text.count_take_lt_length_rows s.text c
  have hend := Text.length_rowsBefore_le_length s.text ((s.text.take c).count '\n')
  apply meets_bind
  apply meets_currentLine hc hle
  apply meets_bind
  apply meets_lineStart hi
  apply meets_bind
  apply meets_get
  have hkeep (b : Buffer) :
      Meets (keepCursor >>= fun _ => say "Deleted line") { s with buffer := b }
        Session.Valid fun _ => Session.Valid := by
    apply meets_bind
    apply meets_keepCursor hs b
    apply settles_say
  dsimp only
  split
  · rename_i hnext
    have hrow := List.getElem?_eq_getElem hi
    apply meets_bind
    apply meets_lineStart hnext
    apply meets_bind
    apply meets_removeRange _ (Text.length_rowsBefore_le_length _ _)
    · intro b _ _
      apply hkeep
    · rw [Text.rowsBefore_succ hrow, List.length_append]
      apply Nat.le_add_right
  · apply meets_bind
    apply meets_pure
    apply meets_bind
    apply meets_removeRange hend (Nat.le_refl _)
    intro b _ _
    apply hkeep

theorem settles_appendReset :
  Settles appendReset
  := by
  apply settles_edit
  intro s hs
  obtain ⟨c, hc, hle⟩ := hs.exists_cursor
  have hi := Text.count_take_lt_length_rows s.text c
  apply meets_bind
  apply meets_currentLine hc hle
  apply meets_bind
  apply meets_lineText hi
  intro r hr
  have hstop := Text.length_rowsBefore_add_le hr
  have hdrop := Text.length_dropEndWhile_le (· == '\n') r
  apply meets_bind
  apply meets_lineStart hi
  apply meets_bind
  apply meets_insertAt (by omega)
  intro b hb hlen
  rw [List.length_singleton] at hlen
  apply meets_bind
  apply meets_moveTo
  apply settles_bind settles_openLine fun _ => settles_say _
  refine ⟨?_, hs.past, hs.future⟩
  apply inText_natCast (c := _ + 1)
  dsimp only
  omega

theorem settles_drawCheckpoint [Memory] (length : Int) :
  Settles (drawCheckpoint length)
  := by
  have hrest : Settles (do openLine; openLine; say "Inserted checkpoint") := by
    apply settles_bind settles_openLine
    intro _
    apply settles_bind settles_openLine
    intro _
    apply settles_say
  intro s hs
  rw [drawCheckpoint]
  dsimp only
  split
  · apply meets_bind
    apply meets_throw rfl hs
  · apply settles_bind (settles_putSnippet _) (fun _ => hrest) s hs

theorem settles_insertCheckpoint [Memory] (length : Option Int) :
  Settles (insertCheckpoint length)
  := by
  apply settles_edit
  intro s hs
  apply meets_bind
  apply meets_get
  apply settles_bind settles_prepareLine _ s hs
  intro _ s hs
  obtain ⟨c, hc, hle⟩ := hs.exists_cursor
  have hi := Text.count_take_lt_length_rows s.text c
  apply meets_bind
  apply meets_currentLine hc hle
  dsimp only
  split
  · apply meets_bind
    apply meets_lineText (Nat.lt_of_le_of_lt (Nat.sub_le _ _) hi)
    intro above _
    split
    · apply settles_bind settles_openLine _ s hs
      intro _
      apply settles_drawCheckpoint
    · apply settles_drawCheckpoint _ s hs
  · apply settles_drawCheckpoint _ s hs

theorem settles_insertVoice :
  Settles insertVoice
  := by
  apply settles_edit
  apply settles_bind settles_prepareLine
  intro _
  apply settles_bind (settles_putSnippet _)
  intro _ s hs
  apply meets_modify
  exact ⟨hs.now, hs.past, hs.future⟩

theorem settles_formatText [Memory] :
  Settles formatText
  := by
  apply settles_edit
  intro s hs
  apply meets_bind
  apply meets_get
  split
  · apply meets_throw rfl hs
  · apply meets_bind
    apply meets_modify
    apply meets_bind
    apply meets_keepCursor hs
    apply settles_say

theorem settles_newNote (pitch : Text) :
  Settles (newNote pitch)
  := by
  intro s hs
  apply meets_bind
  apply meets_get
  apply meets_pure hs

theorem settles_insertNote [Memory] (letter : Text) :
  Settles (insertNote letter)
  := by
  apply settles_edit
  apply settles_bind (settles_newNote _)
  intro note
  apply settles_bind (settles_putSnippet _)
  intro _
  apply (rests_playNote _).settles

theorem settles_insertRest :
  Settles insertRest
  := by
  apply settles_edit
  apply settles_bind (settles_newNote _)
  intro note
  apply settles_putSnippet

theorem settles_deleteNote :
  Settles deleteNote
  := by
  apply settles_edit
  intro s hs
  apply meets_bind
  apply meets_get
  split
  · apply meets_pure hs
  · rename_i span hspan
    have hwithin : span.Within s.text := by
      obtain hnote | ⟨-, hword⟩ := Option.or_eq_some_iff.mp hspan
      · apply Score.noteAt?_within hnote
      · apply Score.wordAt?_within hword
    apply meets_bind
    apply meets_removeRange hwithin.start_le hwithin.stop_le
    intro b hb hlen
    have hstart := hwithin.start_le
    have hstop := hwithin.stop_le
    apply meets_bind
    apply meets_get
    dsimp only
    split
    · rename_i hblank
      obtain ⟨hlt, -⟩ := List.getElem?_eq_some_iff.mp hblank
      apply meets_bind
      apply meets_removeRange (Nat.le_succ span.start)
      · apply Nat.succ_le_of_lt hlt
      intro b' hb' hlen'
      apply meets_bind
      apply meets_moveTo
      apply settles_say
      refine ⟨inText_natCast ?_, hs.past, hs.future⟩
      rw [Session.text] at hlen'
      dsimp only at hlen' ⊢
      omega
    · apply meets_bind
      apply meets_moveTo
      apply settles_say
      refine ⟨inText_natCast ?_, hs.past, hs.future⟩
      dsimp only
      omega

end Action

end Tunescript
