import Tunescript.Proofs.Layout.Drawn
import Tunescript.Proofs.Layout.Pieces

/-!
# Lines that are written again

A written line that is read and written again, perhaps with other layouts, stays as it is exactly if
none of its lasting commands has become another one and if the layouts give these the same room
(`Settled`, `formatLine_iff`).
-/

namespace Tunescript

open Score
open Text (isBlank endsLine)

namespace Command

instance (c : Command) : Decidable c.Legible :=
  match c with
  | ⟨.tempo, noun⟩ => inferInstanceAs (Decidable (∀ x ∈ noun, x.isDigit = true))
  | ⟨.time, noun⟩ => inferInstanceAs (Decidable (∀ x ∈ noun, isFractionChar x = true))
  | ⟨.voice, noun⟩ => inferInstanceAs (Decidable (∀ x ∈ noun, isNameChar x = true))
  | ⟨.reset, noun⟩ => inferInstanceAs (Decidable (noun.head? ≠ some '-'))
  | ⟨.note _, _⟩ => isTrue trivial
  | ⟨.measure, _⟩ => isTrue trivial
  | ⟨.comment, _⟩ => isTrue trivial
  | ⟨.checkpoint, _⟩ => isTrue trivial

end Command

namespace Layout

/-- The lasting commands can be read again. -/
def Lasts (cs : List Command) : Prop := ∀ c ∈ lasting cs, c.Legible ∨ c.verb = .reset

instance (cs : List Command) : Decidable (Lasts cs) :=
  inferInstanceAs (Decidable (∀ c ∈ lasting cs, c.Legible ∨ c.verb = .reset))

theorem Lasts.readable {cs : List Command} (h : Lasts cs) :
  ReadableLine (lasting cs)
  := by
  constructor
  · apply h
  · apply remark_lasting

/-- If a written line can be read, its lasting commands can. -/
theorem lasts_of_commands {cs ds : List Command} {w e : Text} (h : Written cs w)
    (hcs : ShapedLine cs) (he : LineEnd e) (hds : commands (w ++ e) = .ok ds) :
  Lasts cs
  := by
  induction h generalizing ds with
  | nil => apply List.forall_mem_nil
  | @cons c cs gap w hgap hstar hlast h ih =>
    have hc := hcs.shaped c List.mem_cons_self
    cases hremark : c.verb.isRemark with
    | true =>
      rw [Lasts, lasting_of_remark hremark, List.forall_mem_singleton]
      obtain ⟨verb, noun⟩ := c
      cases verb with
      | comment => apply Or.inl trivial
      | reset => apply Or.inr rfl
      | _ => cases hremark
    | false =>
      rw [Lasts, lasting_of_not_remark hremark, List.forall_mem_cons]
      by_cases hlegible : c.Legible
      · obtain ⟨ds', hds', -⟩ := commands_written_cons hgap hstar h hc hlegible hremark he hds
        exact ⟨.inl hlegible, ih hcs.tail hds'⟩
      · have hreset : c.verb ≠ .reset := by
          intro hreset
          rw [hreset] at hremark
          cases hremark
        obtain ⟨o, ho⟩ := commands_core_of_not_legible hc hlegible hreset (gap ++ (w ++ e))
        rw [List.append_assoc, List.append_assoc, ho] at hds
        cases hds

section Again

variable {cs : List Command} {w : Text}

/-- What is read from the line that it is written as comes back from there. -/
theorem legibleLine_of_again (h : Written cs w) (hcs : ShapedLine cs)
    (hread : commands w = .ok cs) :
  LegibleLine cs
  := by
  rw [← List.append_nil w] at hread
  obtain ⟨-, hlt⟩ := weight_of_written h hcs (.inl rfl) hread
  by_contra hnot
  apply Nat.lt_irrefl (weight cs)
  apply hlt
  rintro ⟨hlegible, -⟩
  apply hnot hlegible

theorem oneStarred_reread (cs : List Command) :
  OneStarred (cs.map reread)
  := by
  rw [OneStarred, List.forall_mem_map]
  intro c _ hverb
  rw [verb_reread] at hverb
  rw [reread, hverb]
  rfl

/-- Separated checkpoints that are read from the line that they are written on have one star
each. -/
theorem oneStarred_of_again (h : Written cs w) (hcs : ShapedLine cs) (hread : commands w = .ok cs)
    (hseparated : Separated cs) :
  OneStarred cs
  := by
  have hlegible := legibleLine_of_again h hcs hread
  have hwritten := commands_written h hcs.shaped hlegible (e := []) (.inl rfl)
  have hmap : Separated (cs.map reread) := (separated_map verb_reread).mpr hseparated
  rw [List.append_nil, hread, fused_of_separated hmap] at hwritten
  rw [Except.ok.inj hwritten]
  apply oneStarred_reread

/-- A reset at the end of a written line starts with the only semicolon before it. -/
theorem reset_of_written (h : Written cs w) (hcs : ∀ c ∈ cs, c.Shaped)
    (hremark : ∀ c ∈ cs.dropLast, c.verb.isRemark = false) {c : Command}
    (hc : cs.getLast? = some c) (hreset : c.verb = .reset) :
  ∃ u, w = u ++ core c ∧ ';' ∉ u
  := by
  induction h with
  | nil => cases hc
  | @cons d cs gap w hgap hstar hlast h ih =>
    obtain ⟨hd, hcs⟩ := List.forall_mem_cons.mp hcs
    obtain _ | ⟨e, cs⟩ := cs
    · obtain rfl : d = c := Option.some.inj hc
      cases h
      rw [hlast rfl]
      use []
      simp
    · rw [List.getLast?_cons_cons] at hc
      obtain ⟨u, rfl, hu⟩ := ih hcs (remark_tail hremark) hc
      use core d ++ (gap ++ u)
      constructor
      · simp only [List.append_assoc]
      · have hd' : d.verb.isRemark = false := by
          apply hremark d
          rw [List.dropLast_cons_of_ne_nil (List.cons_ne_nil e cs)]
          apply List.mem_cons_self
        rw [List.mem_append, List.mem_append]
        rintro (hmem | hmem | hmem)
        · obtain hmark | hspace | hinner | hdot := mem_core hd hd' hmem
          · cases hverb : d.verb <;> simp [hverb, mark, Verb.isRemark] at hmark hd'
          · cases hspace
          · cases hinner
          · cases hdot
        · obtain hspace | hdash := hgap _ hmem
          · cases hspace
          · cases hdash
        · apply hu hmem

theorem core_reset_inj {n m : Text} (h : core ⟨.reset, n⟩ = core ⟨.reset, m⟩) :
  n = m
  := by
  obtain _ | ⟨x, n⟩ := n
  · obtain _ | ⟨y, m⟩ := m
    · rfl
    · cases h
  · obtain _ | ⟨y, m⟩ := m
    · cases h
    · cases h
      rfl

theorem oneStarred_retake (cs : List Command) (rest : Text) :
  OneStarred (cs.map (retake rest))
  := by
  rw [OneStarred, List.forall_mem_map]
  intro c _ hverb
  rw [verb_retake] at hverb
  have hremark : c.verb.isRemark = false := by
    rw [hverb]
    rfl
  rw [retake_of_not_remark hremark, reread, hverb]
  rfl

theorem getLast?_of_remark {c : Command} (hremark : ∀ c ∈ cs.dropLast, c.verb.isRemark = false)
    (hc : c ∈ cs) (h : c.verb.isRemark) :
  cs.getLast? = some c
  := by
  have hne := List.ne_nil_of_mem hc
  rw [List.getLast?_eq_some_getLast hne]
  rw [← List.dropLast_append_getLast hne, List.mem_append, List.mem_singleton] at hc
  obtain hc | hc := hc
  · rw [hremark c hc] at h
    cases h
  · rw [← hc]

/-- A reset whose dashes have been lost is not written as before. -/
theorem legible_of_again {ds : List Command} (hcs : ∀ c ∈ cs, c.Shaped)
    (hremark : ∀ c ∈ cs.dropLast, c.verb.isRemark = false) (h : Written cs w)
    (hds : ds = cs.map (retake [])) (hshaped : ∀ c ∈ ds, c.Shaped) (h' : Written ds w) {c : Command}
    (hc : c ∈ cs) (hreset : c.verb = .reset) :
  c.Legible
  := by
  by_contra hlegible
  have hremark' : c.verb.isRemark := by
    rw [hreset]
    rfl
  have hlast := getLast?_of_remark hremark hc hremark'
  have hlast' : ds.getLast? = some (retake [] c) := by
    rw [hds, List.getLast?_map, hlast]
    rfl
  have hremarks : ∀ d ∈ ds.dropLast, d.verb.isRemark = false := by
    rw [hds, ← List.map_dropLast, List.forall_mem_map]
    intro d hd
    rw [verb_retake]
    apply hremark d hd
  have hretake : retake [] c = ⟨.reset, remarkNoun c.verb c.noun⟩ := by
    rw [retake, if_pos hremark', List.append_nil, hreset]
  obtain ⟨u, hu, hnot⟩ := reset_of_written h hcs hremark hlast hreset
  obtain ⟨u', hu', hnot'⟩ := reset_of_written h' hshaped hremarks hlast' (by rw [hretake])
  have hsame : core c = core (retake [] c) := by
    obtain ⟨s, hs⟩ := core_eq_cons c
    obtain ⟨s', hs'⟩ := core_eq_cons (retake [] c)
    rw [hreset] at hs
    rw [hretake] at hs'
    rw [hs] at hu
    rw [hretake, hs'] at hu'
    rw [hu] at hu'
    obtain rfl := eq_of_append_cons hnot hnot' hu'
    rw [hretake, hs, hs']
    apply List.append_cancel_left hu'
  have hweight := weight_remarkNoun_of_not_legible hlegible hremark'
  obtain ⟨verb, noun⟩ := c
  obtain rfl : verb = .reset := hreset
  rw [hretake] at hsame
  rw [← core_reset_inj hsame] at hweight
  apply Nat.lt_irrefl _ hweight

end Again

section Rendering

variable {α : Type} [Scalar α] {before after : List (List (Segment α))} {cs : List Command}
variable {v w rest e : Text}

theorem shaped_lasting (hcs : ShapedLine cs) :
  ∀ c ∈ lasting cs, c.Shaped
  := by
  obtain ⟨ds, hds, -⟩ := exists_of_lasting cs
  intro c hc
  apply hcs.shaped c
  rw [hds]
  apply List.mem_append_left ds hc

theorem isLine_of_not_mem {t : Text} (h : '\n' ∉ t) :
  IsLine t
  := by
  rintro u v rfl
  simp at h

/-- The commands that are read from a written line are its lasting commands, the last of which has
taken the rest of the line. -/
theorem commands_rendered [Memory] (hcs : ShapedLine cs) (hlasts : Lasts cs)
    (hv : renderLine (lasting cs) before = .ok v) (hrest : Taken (lasting cs) rest)
    (he : LineEnd e) :
  commands (v ++ rest ++ e) = .ok (fused ((lasting cs).map (retake rest)))
  := by
  have hshaped := shaped_lasting hcs
  rw [List.append_assoc]
  apply commands_written_append (written_of_renderLine hshaped hv) hshaped hlasts.readable
    hrest.takes hrest.newline he

theorem Taken.isLine (hcs : ∀ c ∈ cs, c.Shaped) (hw : Written cs w) (hrest : Taken cs rest) :
  IsLine (w ++ rest)
  := by
  apply isLine_of_not_mem
  intro hmem
  obtain hmem | hmem := List.mem_append.mp hmem
  · apply hw.newline hcs hmem
  · apply hrest.newline hmem

/-- A reset that has taken something was read from a note, so that it has no dashes. -/
theorem Taken.legible (hrest : Taken cs rest) (hne : rest ≠ []) {c : Command} (hc : c ∈ cs)
    (hreset : c.verb = .reset) :
  c.Legible
  := by
  have hlength := hrest.length hne c hc (by rw [hreset]; rfl)
  obtain ⟨x, u, hnoun, hx⟩ := lead_of_isLengthText hlength
  rw [Command.Legible, hreset]
  dsimp only
  rw [hnoun]
  rintro ⟨⟩
  cases hx

/-- A written line that fits into memory is written again as it was exactly if its checkpoints are
separated, its resets have no dashes in front of them, and its lasting commands have the same
room. -/
theorem renderLine_again_iff [Memory] (hcs : ShapedLine cs) (hlasts : Lasts cs)
    (hv : renderLine (lasting cs) before = .ok v) (hrest : Taken (lasting cs) rest)
    (hfits : (v ++ rest).length < Memory.size) :
  renderLine (fused ((lasting cs).map (retake rest))) after = .ok (v ++ rest) ↔
    Separated (lasting cs) ∧ (∀ c ∈ lasting cs, c.Legible) ∧
      renderLine (lasting cs) after = renderLine (lasting cs) before
  := by
  have hshaped := shaped_lasting hcs
  have hread := commands_rendered hcs hlasts hv hrest (.inl rfl)
  rw [List.append_nil] at hread
  constructor
  · intro hagain
    have hwritten := written_of_renderLine hshaped hv
    have hcs' := shapedLine_of_commands (hrest.isLine hshaped hwritten) hread
    have hwritten' := written_of_renderLine hcs'.shaped hagain
    have hseparated : Separated (lasting cs) := by
      apply (separated_map (verb_retake rest)).mp
      apply separated_of_oneStarred (oneStarred_retake (lasting cs) rest)
      apply oneStarred_of_again hwritten' hcs' hread (separated_fused _)
    have hsame : fused ((lasting cs).map (retake rest)) = (lasting cs).map (retake rest) := by
      apply fused_of_separated
      apply (separated_map (verb_retake rest)).mpr hseparated
    rw [hsame] at hagain hcs' hwritten'
    have hlegible : ∀ c ∈ lasting cs, c.Legible := by
      intro c hc
      obtain hlegible | hreset := hlasts c hc
      · apply hlegible
      · by_cases hnil : rest = []
        · rw [hnil] at hcs' hwritten'
          rw [List.append_nil] at hwritten'
          apply legible_of_again hshaped (remark_lasting cs) hwritten rfl hcs'.shaped hwritten' hc
            hreset
        · apply hrest.legible hnil hc hreset
    use hseparated, hlegible
    rw [renderLine_retake_iff hshaped ⟨hlegible, remark_lasting cs⟩ hrest] at hagain
    obtain ⟨v', hv', happend, -⟩ := hagain
    rw [hv', hv, List.append_cancel_right happend]
  · rintro ⟨hseparated, hlegible, hroom⟩
    rw [fused_of_separated ((separated_map (verb_retake rest)).mpr hseparated),
      renderLine_retake_iff hshaped ⟨hlegible, remark_lasting cs⟩ hrest]
    exact ⟨v, hroom.trans hv, rfl, hfits⟩

end Rendering

theorem lineEndOf_append {w : Text} (hw : '\n' ∉ w) :
  lineEndOf (w ++ lineEndOf line) = lineEndOf line
  := by
  rw [lineEndOf, endsLine_append_lineEndOf hw, ← lineEndOf]

section Line

variable [Memory] {α : Type} [Scalar α] {before after : List (List (Segment α))} {line f : Text}

/-- The line, written with the one layouts, is written again as it is with the others: if its
lasting commands can be read again, they are the same and have the same room. -/
def Settled (before after : List (List (Segment α))) (line : Text) : Prop :=
  ∀ cs, Score.read line = .ok cs → Lasts cs →
    Separated (lasting cs) ∧ (∀ c ∈ lasting cs, c.Legible) ∧
      renderLine (lasting cs) after = renderLine (lasting cs) before

/-- A line that starts with a comment has no other lasting command. -/
theorem settled_of_comment {c : Command} {cs : List Command} (hcs : commands line = .ok (c :: cs))
    (hc : c.verb = .comment) :
  Settled before after line
  := by
  have hremark : c.verb.isRemark := by
    rw [hc]
    rfl
  intro ds hds _
  rw [read_eq_ok, hcs] at hds
  cases hds
  rw [lasting_of_remark hremark]
  use List.IsChain.singleton c
  rw [List.forall_mem_singleton, Command.Legible, hc]
  use trivial
  have hnote := isNote_of_isRemark hremark
  rw [renderLine, renderLine, pieces_singleton hnote, pieces_singleton hnote]

theorem formatLine_of_comment (h : isCommentLine f) :
  formatLine after f = .ok f
  := by
  rw [formatLine, if_pos h]

theorem formatLine_of_error {o : Obstacle} (h : commands f = .error o) :
  formatLine after f = .ok f
  := by
  rw [formatLine, Score.read, h]
  dsimp only
  split
  · rfl
  · rfl

theorem formatLine_of_commands (hcomment : isCommentLine f = false) {cs : List Command}
    (hcs : commands f = .ok cs) :
  formatLine after f = (renderLine cs after).map (· ++ lineEndOf f)
  := by
  rw [formatLine, hcomment, if_neg Bool.false_ne_true, Score.read, hcs, lineEndOf]
  dsimp only
  cases renderLine cs after with
  | error o => rfl
  | ok w =>
    apply congrArg Except.ok
    split
    · rfl
    · apply (List.append_nil w).symm

/-- A line is settled if this holds of the commands that are read from it. -/
theorem settled_iff {cs : List Command} (hcs : commands line = .ok cs) (hlasts : Lasts cs) :
  Settled before after line ↔
    Separated (lasting cs) ∧ (∀ c ∈ lasting cs, c.Legible) ∧
      renderLine (lasting cs) after = renderLine (lasting cs) before
  := by
  constructor
  · intro h
    apply h cs (read_eq_ok.mpr hcs) hlasts
  · intro h ds hds _
    rw [read_eq_ok, hcs] at hds
    cases hds
    apply h

theorem settled_of_error {o : Obstacle} (h : commands line = .error o) :
  Settled before after line
  := by
  intro cs hcs
  rw [read_eq_ok, h] at hcs
  cases hcs

section Written

variable {cs : List Command} {w : Text}

/-- A written line that comes back is formatted to itself exactly if the line is settled. -/
theorem formatLine_written_iff (hline : IsLine line) (hcs : commands line = .ok cs)
    (hw : renderLine cs before = .ok w) (hlasts : Lasts cs)
    (hcomment : isCommentLine (w ++ lineEndOf line) = false) :
  formatLine after (w ++ lineEndOf line) = .ok (w ++ lineEndOf line) ↔ Settled before after line
  := by
  have hshaped := shapedLine_of_commands hline hcs
  have hnewline := (written_of_renderLine hshaped.shaped hw).newline hshaped.shaped
  obtain ⟨v, rest, hv, rfl, hrest⟩ := renderLine_lasting hshaped hw
  have hread := commands_rendered hshaped hlasts hv hrest (lineEnd_lineEndOf line)
  rw [formatLine_of_commands hcomment hread, lineEndOf_append hnewline, settled_iff hcs hlasts,
    ← renderLine_again_iff hshaped hlasts hv hrest (length_lt_of_renderLine hw)]
  constructor
  · intro h
    obtain ⟨w', hw', happend⟩ := map_eq_ok h
    rw [hw', List.append_cancel_right happend]
  · intro h
    rw [h]
    rfl

/-- A written line that cannot be read stays as it is, and so does the line. -/
theorem formatLine_of_not_lasts (hline : IsLine line) (hcs : commands line = .ok cs)
    (hw : renderLine cs before = .ok w) (hlasts : ¬Lasts cs) :
  formatLine after (w ++ lineEndOf line) = .ok (w ++ lineEndOf line) ∧ Settled before after line
  := by
  have hshaped := shapedLine_of_commands hline hcs
  have hwritten := written_of_renderLine hshaped.shaped hw
  constructor
  · cases hds : commands (w ++ lineEndOf line) with
    | error o => apply formatLine_of_error hds
    | ok ds =>
      apply absurd _ hlasts
      apply lasts_of_commands hwritten hshaped (lineEnd_lineEndOf line) hds
  · intro ds hds hlasts'
    rw [read_eq_ok, hcs] at hds
    cases hds
    cases hlasts hlasts'

end Written

/-- A formatted line is formatted to itself exactly if the line is settled. -/
theorem formatLine_iff (hline : IsLine line) (h : formatLine before line = .ok f) :
  formatLine after f = .ok f ↔ Settled before after line
  := by
  obtain ⟨rfl, hcomment | ⟨o, ho⟩⟩ | ⟨cs, w, hcs, hw, rfl⟩ := formatLine_eq_ok h
  · rw [iff_true_left (formatLine_of_comment hcomment)]
    cases hread : commands f with
    | error o => apply settled_of_error hread
    | ok cs =>
      obtain ⟨noun, rfl⟩ := commands_of_isCommentLine hcomment hline hread
      apply settled_of_comment hread rfl
  · rw [iff_true_left (formatLine_of_error ho)]
    apply settled_of_error ho
  · have hshaped := shapedLine_of_commands hline hcs
    have hwritten := written_of_renderLine hshaped.shaped hw
    have hend := lineEnd_lineEndOf line
    have hcomment := isCommentLine_written hwritten hend
    cases hline' : isCommentLine (w ++ lineEndOf line) with
    | true =>
      obtain ⟨c, hc, hverb⟩ := hcomment.mp hline'
      obtain ⟨ds, rfl⟩ := List.head?_eq_some_iff.mp hc
      rw [iff_true_left (formatLine_of_comment hline')]
      apply settled_of_comment hcs hverb
    | false =>
      by_cases hlasts : Lasts cs
      · apply formatLine_written_iff hline hcs hw hlasts hline'
      · obtain ⟨hsame, hsettled⟩ := formatLine_of_not_lasts hline hcs hw hlasts
        apply iff_of_true hsame hsettled

end Line

section Slots

variable {α : Type} [Scalar α]

/-- The notes of a line that can be read. -/
def lineSlots (line : Text) : List (Nat × Slot α) :=
  match Score.read line with
  | .ok cs => slotsOf 0 Scalar.zero cs
  | .error _ => []

theorem blockSlots_eq (lines : List Text) :
  (blockSlots lines : List (Nat × Slot α)) = lines.flatMap lineSlots
  := rfl

/-- The commands of a line that can be read again when it has been written. -/
def left (cs : List Command) : List Command := if Lasts cs then lasting cs else []

/-- The notes of a line that it still has when it has been written. -/
def slotsLeft (line : Text) : List (Nat × Slot α) :=
  match Score.read line with
  | .ok cs => slotsOf 0 Scalar.zero (left cs)
  | .error _ => []

theorem slotsOf_cons_congr (c : Command) {cs ds : List Command}
    (h : ∀ (bars : Nat) (time : α), slotsOf bars time cs = slotsOf bars time ds) (bars : Nat)
    (time : α) :
  slotsOf bars time (c :: cs) = slotsOf bars time (c :: ds)
  := by
  obtain ⟨verb, noun⟩ := c
  cases verb with
  | note name => simp only [slotsOf, h]
  | _ => apply h

theorem slotsOf_retake (c : Command) (rest : Text) (bars : Nat) (time : α) (cs : List Command) :
  slotsOf bars time (retake rest c :: cs) = slotsOf bars time (c :: cs)
  := by
  obtain ⟨verb, noun⟩ := c
  cases verb with
  | _ => rfl

theorem slotsOf_map_retake (rest : Text) (cs : List Command) (bars : Nat) (time : α) :
  slotsOf bars time (cs.map (retake rest)) = slotsOf bars time cs
  := by
  induction cs generalizing bars time with
  | nil => rfl
  | cons c cs ih =>
    rw [List.map_cons, slotsOf_retake]
    apply slotsOf_cons_congr c ih

theorem slotsOf_fuse (c : Command) (cs : List Command) (bars : Nat) (time : α) :
  slotsOf bars time (fuse c cs) = slotsOf bars time (c :: cs)
  := by
  obtain _ | ⟨d, cs⟩ := cs
  · rfl
  · rw [fuse]
    split
    · rename_i hboth
      obtain ⟨verb, noun⟩ := c
      obtain ⟨verb', noun'⟩ := d
      obtain ⟨rfl, rfl⟩ := hboth
      rfl
    · rfl

theorem slotsOf_fused (cs : List Command) (bars : Nat) (time : α) :
  slotsOf bars time (fused cs) = slotsOf bars time cs
  := by
  induction cs generalizing bars time with
  | nil => rfl
  | cons c cs ih =>
    rw [fused_cons, slotsOf_fuse]
    apply slotsOf_cons_congr c ih

theorem lineSlots_of_ok {line : Text} {cs : List Command} (h : commands line = .ok cs) :
  (lineSlots line : List (Nat × Slot α)) = slotsOf 0 Scalar.zero cs
  := by
  rw [lineSlots, read_eq_ok.mpr h]

theorem lineSlots_of_error {line : Text} {o : Obstacle} (h : commands line = .error o) :
  (lineSlots line : List (Nat × Slot α)) = []
  := by
  rw [lineSlots, Score.read, h]

theorem slotsLeft_of_ok {line : Text} {cs : List Command} (h : commands line = .ok cs) :
  (slotsLeft line : List (Nat × Slot α)) = slotsOf 0 Scalar.zero (left cs)
  := by
  rw [slotsLeft, read_eq_ok.mpr h]

theorem slotsLeft_of_error {line : Text} {o : Obstacle} (h : commands line = .error o) :
  (slotsLeft line : List (Nat × Slot α)) = []
  := by
  rw [slotsLeft, Score.read, h]

/-- A formatted line has the notes that are left of the line. -/
theorem lineSlots_formatLine [Memory] {before : List (List (Segment α))} {line f : Text}
    (hline : IsLine line) (h : formatLine before line = .ok f) :
  (lineSlots f : List (Nat × Slot α)) = slotsLeft line
  := by
  obtain ⟨rfl, hcomment | ⟨o, ho⟩⟩ | ⟨cs, w, hcs, hw, rfl⟩ := formatLine_eq_ok h
  · cases hread : commands f with
    | error o => rw [lineSlots_of_error hread, slotsLeft_of_error hread]
    | ok cs =>
      obtain ⟨noun, rfl⟩ := commands_of_isCommentLine hcomment hline hread
      rw [lineSlots_of_ok hread, slotsLeft_of_ok hread, left]
      split
      · rfl
      · rfl
  · rw [lineSlots_of_error ho, slotsLeft_of_error ho]
  · have hshaped := shapedLine_of_commands hline hcs
    have hwritten := written_of_renderLine hshaped.shaped hw
    have hend := lineEnd_lineEndOf line
    rw [slotsLeft_of_ok hcs, left]
    split
    · rename_i hlasts
      obtain ⟨v, rest, hv, rfl, hrest⟩ := renderLine_lasting hshaped hw
      rw [lineSlots_of_ok (commands_rendered hshaped hlasts hv hrest hend), slotsOf_fused,
        slotsOf_map_retake]
    · rename_i hlasts
      cases hds : commands (w ++ lineEndOf line) with
      | error o =>
        rw [lineSlots_of_error hds]
        rfl
      | ok ds => cases hlasts (lasts_of_commands hwritten hshaped hend hds)

end Slots

end Layout

end Tunescript
