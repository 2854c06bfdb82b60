import Tunescript.Proofs.Layout.Drawn

/-!
# Formatting and the music of a score

A formatted score has the commands of the score, up to the number of stars of its checkpoints and of
checkpoints in a row, exactly if this holds of each of its lines (`format_keeps_commands_iff`).  A
line does not come back if it starts with a checkpoint but holds other commands, since it is redrawn
as a checkpoint line; if a remark stands in front of other commands, since it takes them; and if a
command has been read from a note that it cannot be written as (`KeptLine`).
-/

namespace Tunescript

open Score
open Text (endsLine)

/-- The commands of a line come back from the line that is formatted. -/
structure KeptLine (cs : List Command) : Prop where
  /-- A line that starts with a checkpoint holds nothing else. -/
  checkpoints : ∀ c, cs.head? = some c → c.verb = .checkpoint → ∀ d ∈ cs, d.verb = .checkpoint
  /-- The commands are read from what is written for them. -/
  legible : LegibleLine cs
  /-- The measures have been read from bars. -/
  barred : Barred cs

/-- Formatting keeps the commands of a line; a checkpoint line can be read by itself. -/
def Kept (line : Text) : Prop :=
  (isCheckpointLine line → ∃ cs, Score.read line = .ok cs) ∧
    ∀ cs, Score.read line = .ok cs → KeptLine cs

namespace Layout

section Renders

/-- Where the condition holds, the outcome is the commands up to their checkpoints; where it does
not, commands that come out are others, since they weigh less. -/
def Renders (K : Prop) (cs : List Command) (o : Except Obstacle (List Command)) : Prop :=
  (K → ∃ ds, o = .ok ds ∧ joined ds = joined cs) ∧
    ∀ ds, o = .ok ds → weight ds ≤ weight cs ∧ (¬K → weight ds < weight cs)

/-- Places where no command goes on, from which on the commands of one text come out of the
other. -/
structure Related (K : Prop) (x y : Text) : Prop where
  /-- The place in the one text. -/
  left : Stop x
  /-- The place in the other text. -/
  right : Stop y
  /-- The commands that come out. -/
  renders : ∀ cs, commands x = .ok cs → Renders K cs (commands y)

variable {K L : Prop} {cs ds : List Command} {x y : Text}

theorem Renders.cons {o : Except Obstacle (List Command)} (h : Renders K cs o) (c : Command) :
  Renders K (c :: cs) (o.map (c :: ·))
  := by
  constructor
  · intro hK
    obtain ⟨ds, rfl, hds⟩ := h.1 hK
    exact ⟨c :: ds, rfl, joined_cons_congr c hds⟩
  · intro es hes
    obtain ⟨ds, hds, rfl⟩ := map_eq_ok hes
    obtain ⟨hle, hlt⟩ := h.2 ds hds
    rw [weight_cons, weight_cons]
    use Nat.add_le_add_left hle _
    intro hK
    apply Nat.add_lt_add_left (hlt hK)

theorem renders_self (hK : K) (cs : List Command) :
  Renders K cs (.ok cs)
  := by
  constructor
  · intro _
    exact ⟨cs, rfl, rfl⟩
  · rintro ds ⟨⟩
    exact ⟨le_rfl, fun hnot => absurd hK hnot⟩

theorem related_nil (hK : K) :
  Related K [] []
  := by
  use stop_nil, stop_nil
  intro cs hcs
  rw [hcs]
  apply renders_self hK

/-- What comes out at the related places comes out of the texts. -/
theorem renders_of_alike (h : Alike (Related K) x y) (hx : commands x = .ok cs) :
  Renders K cs (commands y)
  := by
  apply h.faithful (R := Renders K) _ _ _ hx
  · intro x y h
    apply h.left
  · intro c cs o h
    apply h.cons c
  · intro x y h
    apply h.renders

theorem stop_of_alike (h : Alike (Related K) x y) (hx : Stop x) :
  Stop y
  := (h.stop fun _ _ h => ⟨h.left, h.right⟩).mp hx

theorem Renders.append {d : Text} (hd : Renders L cs (commands d)) (hy : Renders K ds (commands y))
    (hends : endsLine d ∨ y = []) (hstop : Stop y) :
  Renders (L ∧ K) (cs ++ ds) (commands (d ++ y))
  := by
  constructor
  · rintro ⟨hL, hK⟩
    obtain ⟨cs', hcs', hcs⟩ := hd.1 hL
    obtain ⟨ds', hds', hds⟩ := hy.1 hK
    use cs' ++ ds'
    rw [commands_append hends hcs', hds']
    exact ⟨rfl, joined_append_congr hcs hds⟩
  · intro es hes
    cases hread : commands d with
    | error o => apply absurd hstop (not_stop_of_commands_append hends hread hes)
    | ok cs' =>
      rw [commands_append hends hread] at hes
      obtain ⟨ds', hds', rfl⟩ := map_eq_ok hes
      obtain ⟨hle, hlt⟩ := hd.2 cs' hread
      obtain ⟨hle', hlt'⟩ := hy.2 ds' hds'
      rw [weight_append, weight_append]
      use Nat.add_le_add hle hle'
      intro hnot
      by_cases hL : L
      · apply Nat.add_lt_add_of_le_of_lt hle
        apply hlt'
        intro hK
        apply hnot ⟨hL, hK⟩
      · apply Nat.add_lt_add_of_lt_of_le (hlt hL) hle'

/-- Lines of which the one comes out of the other are related, with what follows them. -/
theorem related_append {a d : Text} (ha : commands a = .ok cs) (hne : cs ≠ [])
    (hd : Renders L cs (commands d)) (hstop : Stop d) (hskip : skip d ≠ [])
    (hx : endsLine a ∨ x = []) (hy : endsLine d ∨ y = []) (h : Alike (Related K) x y) :
  Related (L ∧ K) (a ++ x) (d ++ y)
  := by
  have hskip' : skip a ≠ [] := by
    intro hnil
    rw [commands_nil hnil] at ha
    apply hne (Except.ok.inj ha).symm
  use (stop_of_commands ha).append hskip' x, hstop.append hskip y
  intro es hes
  rw [commands_append hx ha] at hes
  obtain ⟨ds, hds, rfl⟩ := map_eq_ok hes
  apply hd.append (renders_of_alike h hds) hy
  apply stop_of_alike h (stop_of_commands hds)

/-- A line that can be read only together with what follows it does not come out of a line that is
read by itself. -/
theorem related_of_not_read {a d : Text} {o : Obstacle} (ha : commands a = .error o)
    (hstop : Stop (a ++ x)) (hL : ¬L) (hd : commands d = .ok ds) (hskip : skip d ≠ [])
    (hx : endsLine a ∨ x = []) (hy : endsLine d ∨ y = []) (h : Alike (Related K) x y) :
  Related (L ∧ K) (a ++ x) (d ++ y)
  := by
  use hstop, (stop_of_commands hd).append hskip y
  intro es hes
  have hnot : ¬Stop y := by
    rw [← h.stop fun _ _ h => ⟨h.left, h.right⟩]
    apply not_stop_of_commands_append hx ha hes
  obtain ⟨o', ho'⟩ := commands_of_not_stop hnot
  rw [commands_append hy hd, ho']
  constructor
  · rintro ⟨hl, -⟩
    cases hL hl
  · intro fs hfs
    cases hfs

end Renders

section Line

variable {line w : Text} {cs : List Command}

theorem keptLine_of_checkpoints (h : ∀ c ∈ cs, c.verb = .checkpoint) :
  KeptLine cs
  := by
  have hverb {c : Command} (hc : c ∈ cs) : c.Legible ∧ c.verb.isRemark = false := by
    rw [Command.Legible, h c hc]
    exact ⟨trivial, rfl⟩
  constructor
  · intro _ _ _
    apply h
  · constructor
    · intro c hc
      apply (hverb hc).1
    · intro c hc
      apply (hverb (List.dropLast_subset cs hc)).2
  · intro c hc hmeasure
    rw [h c hc] at hmeasure
    cases hmeasure

theorem kept_iff (h : commands line = .ok cs) :
  Kept line ↔ KeptLine cs
  := by
  constructor
  · intro hkept
    apply hkept.2 cs (read_eq_ok.mpr h)
  · intro hkept
    constructor
    · intro _
      exact ⟨cs, read_eq_ok.mpr h⟩
    · intro ds hds
      rw [read_eq_ok, h] at hds
      obtain ⟨⟩ := hds
      apply hkept

/-- The commands of a line come out of the line that is written from them if the line is kept. -/
theorem renders_written (hline : IsLine line) (hcs : commands line = .ok cs)
    (hhead : ∀ c, cs.head? = some c → c.verb ≠ .checkpoint) (h : Written cs w) :
  Renders (Kept line) cs (commands (w ++ lineEndOf line))
  := by
  have hshaped := shapedLine_of_commands hline hcs
  have hend := lineEnd_lineEndOf line
  rw [kept_iff hcs]
  constructor
  · intro hkept
    use fused (cs.map reread), commands_written h hshaped.shaped hkept.legible hend
    rw [joined_fused, joined_reread hkept.barred]
  · intro ds hds
    obtain ⟨hle, hlt⟩ := weight_of_written h hshaped hend hds
    use hle
    intro hnot
    apply hlt
    rintro ⟨hlegible, hbarred⟩
    apply hnot
    constructor
    · intro c hc hverb
      cases hhead c hc hverb
    · apply hlegible
    · apply hbarred

theorem commands_stars {width : Nat} (hwidth : 0 < width) {e : Text} (he : LineEnd e) :
  commands (List.replicate width '*' ++ e) = .ok [⟨.checkpoint, List.replicate width '*'⟩]
  := by
  obtain ⟨n, rfl⟩ := Nat.exists_eq_succ_of_ne_zero hwidth.ne'
  have hsplit := takeWhile_exact (p := (· == '*')) (b := List.replicate n '*') (r := e)
    (fun c hc => beq_iff_eq.mpr (List.eq_of_mem_replicate hc)) (by
      intro c hc
      rw [LineEnd.head he c hc]
      rfl)
  rw [List.replicate_succ, List.cons_append, commands_star, hsplit.1, hsplit.2, commands_lineEnd he]
  rfl

/-- The commands of a line that is drawn as stars come out of it if they are checkpoints. -/
theorem renders_stars {width : Nat} (hwidth : 0 < width) {c : Command}
    (hcs : commands line = .ok (c :: cs)) (hc : c.verb = .checkpoint) :
  Renders (Kept line) (c :: cs) (commands (List.replicate width '*' ++ lineEndOf line))
  := by
  rw [kept_iff hcs, commands_stars hwidth (lineEnd_lineEndOf line)]
  constructor
  · intro hkept
    have hall := hkept.checkpoints c rfl hc
    use [⟨.checkpoint, List.replicate width '*'⟩], rfl
    rw [joined_checkpoints (List.cons_ne_nil c cs) hall]
    rfl
  · rintro ds ⟨⟩
    have hzero : weight [⟨.checkpoint, List.replicate width '*'⟩] = 0 := rfl
    rw [hzero]
    use Nat.zero_le _
    intro hnot
    apply Nat.pos_of_ne_zero
    intro hweight
    apply hnot
    apply keptLine_of_checkpoints
    apply weight_eq_zero.mp hweight

end Line

section Document

variable {line : Text} {ls ds : List Text}

theorem kept_of_comment (hline : IsLine line) (h : isCommentLine line)
    (hnot : isCheckpointLine line = false) :
  Kept line
  := by
  rw [Kept, hnot]
  use nofun
  intro cs hcs
  obtain ⟨noun, rfl⟩ := commands_of_isCommentLine h hline (read_eq_ok.mp hcs)
  constructor
  · rintro c ⟨⟩ hverb
    cases hverb
  · apply LegibleLine.cons (c := ⟨.comment, noun⟩) trivial (fun hne => absurd rfl hne)
      ⟨nofun, nofun⟩
  · intro c hc hverb
    rw [List.mem_singleton.mp hc] at hverb
    cases hverb

theorem kept_of_error (hnot : isCheckpointLine line = false) {o : Obstacle}
    (h : commands line = .error o) :
  Kept line
  := by
  rw [Kept, hnot]
  use nofun
  intro cs hcs
  rw [read_eq_ok, h] at hcs
  cases hcs

theorem endsLine_or_of_lineEndOf (hline : endsLine line ∨ ls = [])
    {R : Text → Text → Prop} (h : List.Forall₂ R ls ds) (u : Text) :
  endsLine (u ++ lineEndOf line) ∨ ds.flatten = []
  := by
  obtain hline | rfl := hline
  · apply Or.inl
    rw [lineEndOf, if_pos hline]
    apply Text.endsLine_append rfl
  · cases h
    apply Or.inr rfl

/-- No command goes on over a checkpoint line. -/
theorem stop_of_isCheckpointLine (h : isCheckpointLine line) (t : Text) :
  Stop (line ++ t)
  := by
  obtain ⟨c, r, hskip, hc⟩ := exists_skip_of_opensWith rfl h
  apply Stop.append
  · intro x hx
    rw [hskip, List.head?_cons, Option.some_inj] at hx
    rw [← hx]
    obtain rfl | hblank := hc
    · rfl
    · apply Bool.eq_false_iff.mpr
      intro hinner
      rw [isBlank_eq_false_of_isInner hinner] at hblank
      cases hblank
  · rw [hskip]
    apply List.cons_ne_nil

/-- A line that cannot be read is alike itself, and so is a comment. -/
theorem alike_same {K : Prop} {x y : Text} (hends : endsLine line ∨ ls = []) (hx : x = ls.flatten)
    (hy : y = ds.flatten) {R : Text → Text → Prop} (hpairs : List.Forall₂ R ls ds)
    (h : Alike (Related K) x y) (hK : ls = [] → K) :
  Alike (Related K) (line ++ x) (line ++ y)
  := by
  obtain hends | rfl := hends
  · apply Alike.keep hends h
  · cases hpairs
    rw [hx, hy]
    apply Alike.last (related_nil (hK rfl))

/-- A line that is drawn as stars is related to them, with what follows. -/
theorem related_of_stars {K : Prop} {x y : Text} {width : Nat} (hwidth : 0 < width)
    (hstars : isCheckpointLine line ∨ ∃ c cs, commands line = .ok (c :: cs) ∧ c.verb = .checkpoint)
    (hx : endsLine line ∨ x = [])
    (hy : endsLine (List.replicate width '*' ++ lineEndOf line) ∨ y = [])
    (h : Alike (Related K) x y) :
  Related (Kept line ∧ K) (line ++ x) (List.replicate width '*' ++ lineEndOf line ++ y)
  := by
  have hread := commands_stars hwidth (lineEnd_lineEndOf line)
  have hskip : skip (List.replicate width '*' ++ lineEndOf line) ≠ [] := by
    intro hnil
    rw [commands_nil hnil] at hread
    cases hread
  cases hcs : commands line with
  | error o =>
    have hcheckpoint : isCheckpointLine line := by
      obtain hcheckpoint | ⟨c, cs, hcs', -⟩ := hstars
      · apply hcheckpoint
      · rw [hcs] at hcs'
        cases hcs'
    apply related_of_not_read hcs (stop_of_isCheckpointLine hcheckpoint x) _ hread hskip hx hy h
    intro hkept
    obtain ⟨cs, hcs'⟩ := hkept.1 hcheckpoint
    rw [read_eq_ok, hcs] at hcs'
    cases hcs'
  | ok cs =>
    obtain ⟨c, cs, rfl, hc⟩ : ∃ c cs', cs = c :: cs' ∧ c.verb = .checkpoint := by
      obtain hcheckpoint | ⟨c, cs', hcs', hc⟩ := hstars
      · apply commands_of_isCheckpointLine hcheckpoint hcs
      · rw [hcs] at hcs'
        cases hcs'
        exact ⟨c, cs', rfl, hc⟩
    apply related_append hcs (List.cons_ne_nil c cs) (renders_stars hwidth hcs hc)
      (stop_of_commands hread) hskip hx hy h

theorem skip_written {c : Command} {cs : List Command} {w : Text} (h : Written (c :: cs) w)
    (e : Text) :
  ∃ u, skip (w ++ e) = mark c.verb :: u
  := by
  obtain _ | @⟨_, _, gap, w, hgap, hstar, hlast, h⟩ := h
  obtain ⟨u, hu⟩ := core_eq_cons c
  rw [hu]
  use u ++ (gap ++ w) ++ e
  apply skip_cons_of_not_filler
  cases c.verb <;> rfl

/-- A line that is written from its commands is alike what is written, with what follows. -/
theorem alike_of_written {K : Prop} {x y w : Text} {cs : List Command} (hone : IsLine line)
    (hcs : commands line = .ok cs) (hhead : ∀ c, cs.head? = some c → c.verb ≠ .checkpoint)
    (hwritten : Written cs w) (hx : endsLine line ∨ x = [])
    (hy : endsLine (w ++ lineEndOf line) ∨ y = []) (h : Alike (Related K) x y) :
  Alike (Related (Kept line ∧ K)) (line ++ x) (w ++ lineEndOf line ++ y)
  := by
  obtain _ | ⟨c, cs⟩ := cs
  · -- A line of filler becomes an empty one.
    have hkept : Kept line := by
      rw [kept_iff hcs]
      apply keptLine_of_checkpoints
      apply List.forall_mem_nil
    rw [and_iff_right hkept]
    apply Alike.fill _ _ h
    · obtain ⟨hnil, -⟩ | ⟨c, r, ds, -, -, hcons⟩ := commands_eq_ok hcs
      · apply hnil
      · cases hcons
    · cases hwritten
      obtain hend | hend := lineEnd_lineEndOf line
      · rw [hend]
        rfl
      · rw [hend]
        rfl
  · apply Alike.place
    obtain ⟨u, hu⟩ := skip_written hwritten (lineEndOf line)
    have hrenders := renders_written hone hcs hhead hwritten
    apply related_append hcs (List.cons_ne_nil c cs) hrenders _ _ hx hy h
    · intro d hd
      rw [hu, List.head?_cons, Option.some_inj] at hd
      rw [← hd]
      apply (mark_not_inner c.verb).1
    · rw [hu]
      apply List.cons_ne_nil

/-- A score and the formatted score are alike up to lines whose commands come out. -/
theorem alike_of_drawn {width : Nat} (hwidth : 0 < width) (hlines : Text.Lines ls)
    (h : List.Forall₂ (Drawn width) ls ds) :
  Alike (Related (∀ l ∈ ls, Kept l)) ls.flatten ds.flatten
  := by
  induction h with
  | nil => apply Alike.last (related_nil (List.forall_mem_nil _))
  | @cons line d ls ds hd hpairs ih =>
    have hone := isLine_of_lines hlines line List.mem_cons_self
    have ih := ih hlines.tail
    have hends := hlines.endsLine_or
    have hx : endsLine line ∨ ls.flatten = [] := hends.imp_right (congrArg List.flatten)
    have hy := endsLine_or_of_lineEndOf hends hpairs
    rw [List.forall_mem_cons, List.flatten_cons, List.flatten_cons]
    cases hd with
    | same hcheckpoint hsame =>
      have hkept : Kept line := by
        obtain hcomment | ⟨o, ho⟩ := hsame
        · apply kept_of_comment hone hcomment hcheckpoint
        · apply kept_of_error hcheckpoint ho
      rw [and_iff_right hkept]
      apply alike_same hends rfl rfl hpairs ih
      rintro rfl
      apply List.forall_mem_nil
    | stars hstars => apply Alike.place (related_of_stars hwidth hstars hx (hy _) ih)
    | written hcs hhead hwritten => apply alike_of_written hone hcs hhead hwritten hx (hy _) ih

variable {α : Type} [Scalar α]

/-- The commands of a score come out of the formatted score exactly if every line is kept. -/
theorem renders_formatIn [Memory] {t t' : Text} (h : formatIn α t = .ok t') {cs : List Command}
    (hcs : commands t = .ok cs) :
  Renders (∀ l ∈ Text.lines t, Kept l) cs (commands t')
  := by
  obtain ⟨fs, -, rfl, hdrawn⟩ := formatIn_eq_ok h
  have halike := alike_of_drawn (checkpointWidth_pos fs) (Text.lines_lines t) hdrawn
  rw [Text.flatten_lines] at halike
  apply renders_of_alike halike hcs

/-- A score that can be read keeps its commands when it is formatted, except for the number of its
checkpoints in a row and of their stars, exactly if it can be formatted and each of its lines is
kept. -/
theorem format_keeps_commands_iff [Memory] {t : Text} {cs : List Command}
    (h : Score.read t = .ok cs) :
  (∃ t' ds, format t = .ok t' ∧ Score.read t' = .ok ds ∧ joined ds = joined cs) ↔
    (∃ t', format t = .ok t') ∧ ∀ line ∈ Text.lines t, Kept line
  := by
  rw [read_eq_ok] at h
  constructor
  · rintro ⟨t', ds, ht', hds, hjoined⟩
    use ⟨t', ht'⟩
    have hrenders := renders_formatIn ht' h
    obtain ⟨-, hlt⟩ := hrenders.2 ds (read_eq_ok.mp hds)
    by_contra hnot
    apply Nat.ne_of_lt (hlt hnot)
    apply weight_congr hjoined
  · rintro ⟨⟨t', ht'⟩, hkept⟩
    have hrenders := renders_formatIn ht' h
    obtain ⟨ds, hds, hjoined⟩ := hrenders.1 hkept
    exact ⟨t', ds, ht', read_eq_ok.mpr hds, hjoined⟩

attribute [local instance] Memory.sixteenGigabytes in
/-- A voice and a bar come back, and so does the checkpoint on the line behind them. -/
theorem format_keeps_commands_voice :
  Score.read "% sine  |\n-*".toList =
      .ok [⟨.voice, "sine".toList⟩, ⟨.measure, ['|']⟩, ⟨.checkpoint, ['*']⟩] ∧
    (∃ t' ds, format "% sine  |\n-*".toList = .ok t' ∧ Score.read t' = .ok ds ∧
      joined ds =
        joined [⟨.voice, "sine".toList⟩, ⟨.measure, ['|']⟩, ⟨.checkpoint, ['*']⟩]) ∧
    ∀ line ∈ Text.lines "% sine  |\n-*".toList, Kept line
  := by
  have hread : Score.read "% sine  |\n-*".toList =
      .ok [⟨.voice, "sine".toList⟩, ⟨.measure, ['|']⟩, ⟨.checkpoint, ['*']⟩] := by
    decide +kernel
  have hkept : ∃ t' ds, format "% sine  |\n-*".toList = .ok t' ∧ Score.read t' = .ok ds ∧
      joined ds =
        joined [⟨.voice, "sine".toList⟩, ⟨.measure, ['|']⟩, ⟨.checkpoint, ['*']⟩] := by
    use "% sine |\n".toList ++ List.replicate 79 '*'
    use [⟨.voice, "sine".toList⟩, ⟨.measure, ['|']⟩, ⟨.checkpoint, List.replicate 79 '*'⟩]
    decide +kernel
  exact ⟨hread, hkept, ((format_keeps_commands_iff hread).mp hkept).2⟩

attribute [local instance] Memory.sixteenGigabytes in
/-- The note behind a checkpoint with a dash in front of it is lost. -/
theorem not_format_keeps_commands_dashedCheckpoint :
  Score.read "-* (Cn_4 1/4)".toList =
      .ok [⟨.checkpoint, ['*']⟩, ⟨.note "Cn_4".toList, "1/4".toList⟩] ∧
    ¬∃ t' ds, format "-* (Cn_4 1/4)".toList = .ok t' ∧ Score.read t' = .ok ds ∧
      joined ds = joined [⟨.checkpoint, ['*']⟩, ⟨.note "Cn_4".toList, "1/4".toList⟩]
  := by
  have hread : Score.read "-* (Cn_4 1/4)".toList =
      .ok [⟨.checkpoint, ['*']⟩, ⟨.note "Cn_4".toList, "1/4".toList⟩] := by
    decide +kernel
  use hread
  rintro ⟨t', ds, ht', hds, hjoined⟩
  have hrenders := renders_formatIn ht' (read_eq_ok.mp hread)
  apply Nat.ne_of_lt ((hrenders.2 ds (read_eq_ok.mp hds)).2 _) (weight_congr hjoined)
  intro hkept
  have hline := (hkept "-* (Cn_4 1/4)".toList (by decide)).2 _ hread
  cases hline.checkpoints _ rfl rfl ⟨.note "Cn_4".toList, "1/4".toList⟩ (by decide)

end Document

end Layout

end Tunescript
