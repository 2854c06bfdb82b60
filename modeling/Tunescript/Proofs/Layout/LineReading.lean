import Tunescript.Proofs.Layout.CoreReading
import Tunescript.Proofs.Score.Weight

/-!
# Reading a written line

A written line is read as the commands that it was written from, if these are legible and if only
the last of them is a remark (`commands_written`): a remark takes everything that follows it on its
line (`commands_remark`).  Whatever the commands are, those that are read weigh at most as much, and
less if they are other commands (`weight_of_written`).
-/

namespace Tunescript

open Score
open Text (Trimmed isBlank trim)

/-- Nothing, or the end of a line. -/
def LineEnd (e : Text) : Prop := e = [] ∨ e = ['\n']

/-- The commands are read from the line that is written from them. -/
structure LegibleLine (cs : List Command) : Prop where
  /-- Each is read from its own text. -/
  legible : ∀ c ∈ cs, c.Legible
  /-- No remark takes the text of another command. -/
  remark : ∀ c ∈ cs.dropLast, c.verb.isRemark = false

/-- The commands can be read from the line that is written from them, except for dashes in front of
the noun of a reset. -/
structure ReadableLine (cs : List Command) : Prop where
  /-- Each can be read from its own text. -/
  legible : ∀ c ∈ cs, c.Legible ∨ c.verb = .reset
  /-- No remark takes the text of another command. -/
  remark : ∀ c ∈ cs.dropLast, c.verb.isRemark = false

/-- The measures have been read from bars. -/
def Barred (cs : List Command) : Prop := ∀ c ∈ cs, c.verb = .measure → c.noun = ['|']

theorem remark_tail {c : Command} {cs : List Command}
    (h : ∀ d ∈ (c :: cs).dropLast, d.verb.isRemark = false) :
  ∀ d ∈ cs.dropLast, d.verb.isRemark = false
  := by
  intro d hd
  apply h d
  obtain _ | ⟨e, cs⟩ := cs
  · apply hd
  · apply List.mem_cons_of_mem _ hd

/-- A remark is the last command of a line. -/
theorem eq_nil_of_remark {c : Command} {cs : List Command}
    (h : ∀ d ∈ (c :: cs).dropLast, d.verb.isRemark = false) (hremark : c.verb.isRemark) :
  cs = []
  := by
  obtain _ | ⟨d, cs⟩ := cs
  · rfl
  · have hfirst := h c (by simp [List.dropLast_cons_of_ne_nil])
    rw [hremark] at hfirst
    cases hfirst

theorem ReadableLine.tail {c : Command} {cs : List Command} (h : ReadableLine (c :: cs)) :
  ReadableLine cs
  := by
  constructor
  · intro d hd
    apply h.legible d (List.mem_cons_of_mem _ hd)
  · apply remark_tail h.remark

theorem LegibleLine.readable {cs : List Command} (h : LegibleLine cs) :
  ReadableLine cs
  := by
  constructor
  · intro c hc
    apply Or.inl (h.legible c hc)
  · apply h.remark

/-- In front of commands that are read again, so is a legible command that is no remark. -/
theorem LegibleLine.cons {c : Command} {cs : List Command} (hc : c.Legible)
    (hremark : cs ≠ [] → c.verb.isRemark = false) (h : LegibleLine cs) :
  LegibleLine (c :: cs)
  := by
  constructor
  · apply List.forall_mem_cons.mpr ⟨hc, h.legible⟩
  · intro d hd
    obtain _ | ⟨e, cs⟩ := cs
    · obtain ⟨⟩ := hd
    · obtain rfl | hd := List.mem_cons.mp hd
      · apply hremark (List.cons_ne_nil _ _)
      · apply h.remark d hd

namespace Text

theorem trim_space (t : Text) :
  trim (' ' :: t) = trim t
  := by
  rw [trim, trimStart, List.dropWhile_cons_of_pos rfl]
  rfl

end Text

namespace Score

theorem LineEnd.head {e : Text} (he : LineEnd e) (c : Char) (hc : e.head? = some c) :
  c = '\n'
  := by
  obtain rfl | rfl := he
  · cases hc
  · cases hc
    rfl

end Score

namespace Layout

variable {cs : List Command} {w e : Text}

/-- The noun of a remark in front of a line. -/
def remarkNoun (verb : Verb) (line : Text) : Text :=
  if verb = .reset then trim (line.dropWhile isInlineFiller) else trim line

theorem core_remark {c : Command} (h : c.verb.isRemark) :
  ∃ space, (space = [] ∨ space = [' ']) ∧ core c = mark c.verb :: (space ++ c.noun)
  := by
  obtain ⟨verb, noun⟩ := c
  cases verb with
  | comment =>
    obtain _ | ⟨x, noun⟩ := noun
    · exact ⟨[], .inl rfl, rfl⟩
    · exact ⟨[' '], .inr rfl, rfl⟩
  | reset =>
    obtain _ | ⟨x, noun⟩ := noun
    · exact ⟨[], .inl rfl, rfl⟩
    · exact ⟨[' '], .inr rfl, rfl⟩
  | _ => cases h

/-- A remark takes the rest of its line. -/
theorem spells_remark {c : Command} {rest : Text} (hremark : c.verb.isRemark)
    (hline : '\n' ∉ c.noun ++ rest) (he : LineEnd e) :
  Spells [] (core c ++ (rest ++ e)) ⟨c.verb, remarkNoun c.verb (c.noun ++ rest)⟩
  := by
  obtain ⟨space, hspace, hcore⟩ := core_remark hremark
  obtain ⟨verb, noun⟩ := c
  have hnone : Filler [] := List.forall_mem_nil _
  have hend : e = ['\n'] ∨ e = [] ∧ ([] : Text) = [] := by
    obtain rfl | rfl := he
    · apply Or.inr ⟨rfl, rfl⟩
    · apply Or.inl rfl
  have hspaced : '\n' ∉ space ++ (noun ++ rest) := by
    obtain rfl | rfl := hspace
    · apply hline
    · simpa using hline
  rw [hcore]
  cases verb with
  | comment =>
    have hspells := Spells.comment hnone hspaced hend
    have htrim : trim (space ++ (noun ++ rest)) = trim (noun ++ rest) := by
      obtain rfl | rfl := hspace
      · rfl
      · apply Text.trim_space
    rw [htrim] at hspells
    simpa [mark, remarkNoun] using hspells
  | reset =>
    have hspells := Spells.reset hnone hspaced hend
    have hdrop : (space ++ (noun ++ rest)).dropWhile isInlineFiller =
        (noun ++ rest).dropWhile isInlineFiller := by
      obtain rfl | rfl := hspace
      · rfl
      · rfl
    rw [hdrop] at hspells
    simpa [mark, remarkNoun] using hspells
  | _ => cases hremark

theorem commands_remark {c : Command} {rest : Text} (hremark : c.verb.isRemark)
    (hline : '\n' ∉ c.noun ++ rest) (he : LineEnd e) :
  commands (core c ++ (rest ++ e)) = .ok [⟨c.verb, remarkNoun c.verb (c.noun ++ rest)⟩]
  := by
  have hcut : ¬CutsStars (core c ++ (rest ++ e)) [] := by
    rintro ⟨-, hhead⟩
    cases hhead
  have hread := commands_of_readsAs (readsAs_of_spells (spells_remark hremark hline he) nofun hcut)
  rw [List.append_nil] at hread
  rw [hread, commands_nil rfl]
  rfl

section Text

theorem newline_not_mem_noun {c : Command} (hc : c.Shaped) (hremark : c.verb.isRemark) :
  '\n' ∉ c.noun
  := by
  obtain ⟨verb, noun⟩ := c
  cases verb with
  | comment => apply hc.1
  | reset => apply hc.1
  | _ => cases hremark

/-- The characters in the text of a command that is no remark. -/
theorem mem_core {c : Command} (hc : c.Shaped) (hremark : c.verb.isRemark = false) {x : Char}
    (hx : x ∈ core c) :
  x = mark c.verb ∨ x = ' ' ∨ isInner x ∨ x = dot
  := by
  obtain ⟨verb, noun⟩ := c
  have hname {t : Text} (ht : ∀ x ∈ t, isNameChar x) (hx : x ∈ t) : isInner x ∨ x = dot :=
    .inl (isInner_of_isNameChar x (ht x hx))
  have hlength {t : Text} (ht : isLengthText t) (hx : x ∈ t) : isInner x ∨ x = dot :=
    (isFractionChar_of_isLengthText ht x hx).imp_left (isInner_of_isFractionChar x)
  have hopen {o : Char} (hx : x ∈ [o, ' ']) : x = o ∨ x = ' ' := by
    simpa using hx
  have hclose (hx : x ∈ "_bpm ]".toList) : x = ' ' ∨ isInner x ∨ x = dot := by
    have hall : "_bpm ]".toList.all (fun x => x == ' ' || isInner x) := by decide
    obtain h | h := Bool.or_eq_true_iff.mp (List.all_eq_true.mp hall x hx)
    · apply Or.inl (eq_of_beq h)
    · apply Or.inr (.inl h)
  cases verb with
  | note name =>
    simp only [core, token, List.cons_append, List.append_assoc, List.mem_cons, List.mem_append,
      List.mem_replicate, List.not_mem_nil, false_or] at hx
    obtain rfl | hx | rfl | hx | rfl | ⟨-, hx⟩ := hx
    · apply Or.inl rfl
    · apply Or.inr (.inr (hname hc.2.2.1 hx))
    · apply Or.inr (.inl rfl)
    · apply Or.inr (.inr (hlength hc.2.2.2 (List.mem_of_mem_filter hx)))
    · apply Or.inr (.inr (.inl rfl))
    · apply Or.inr (.inr (.inr hx))
  | voice =>
    obtain hx | hx := List.mem_append.mp hx
    · obtain rfl | rfl := hopen (o := '%') hx
      · apply Or.inl rfl
      · apply Or.inr (.inl rfl)
    · obtain ⟨-, hnoun⟩ | hnoun := hc
      · apply Or.inr (.inr (hname hnoun hx))
      · apply Or.inr (.inr (hlength hnoun hx))
  | tempo =>
    obtain hx | hx := List.mem_append.mp hx
    · obtain hx | hx := List.mem_append.mp hx
      · obtain rfl | rfl := hopen (o := '[') hx
        · apply Or.inl rfl
        · apply Or.inr (.inl rfl)
      · apply Or.inr (.inr (hlength hc hx))
    · apply Or.inr (hclose hx)
  | time =>
    obtain hx | hx := List.mem_append.mp hx
    · obtain hx | hx := List.mem_append.mp hx
      · obtain rfl | rfl := hopen (o := '[') hx
        · apply Or.inl rfl
        · apply Or.inr (.inl rfl)
      · apply Or.inr (.inr (hlength hc hx))
    · apply Or.inr (hclose (List.mem_append_right "_bpm".toList hx))
  | measure => apply Or.inl (List.mem_singleton.mp hx)
  | checkpoint => apply Or.inl (List.mem_singleton.mp hx)
  | _ => cases hremark

theorem newline_not_mem_core {c : Command} (hc : c.Shaped) :
  '\n' ∉ core c
  := by
  intro hmem
  cases hremark : c.verb.isRemark with
  | false =>
    obtain hmark | hspace | hinner | hdot := mem_core hc hremark hmem
    · cases hverb : c.verb <;> simp [hverb, mark] at hmark
    · cases hspace
    · cases hinner
    · cases hdot
  | true =>
    obtain ⟨space, hspace, hcore⟩ := core_remark hremark
    have hnoun := newline_not_mem_noun hc hremark
    rw [hcore] at hmem
    obtain rfl | rfl := hspace
    · cases hverb : c.verb <;> simp [hverb, mark, hnoun] at hmem
    · cases hverb : c.verb <;> simp [hverb, mark, hnoun] at hmem

theorem Written.newline (h : Written cs w) (hcs : ∀ c ∈ cs, c.Shaped) :
  '\n' ∉ w
  := by
  induction h with
  | nil => apply List.not_mem_nil
  | @cons c cs gap w hgap hstar hlast h ih =>
    obtain ⟨hc, hcs⟩ := List.forall_mem_cons.mp hcs
    rw [List.mem_append, List.mem_append]
    rintro (hmem | hmem | hmem)
    · apply newline_not_mem_core hc hmem
    · obtain h | h := hgap _ hmem
      · cases h
      · cases h
    · apply ih hcs hmem

/-- A written line ends with no blank. -/
theorem Written.last (h : Written cs w) (hcs : ∀ c ∈ cs, c.Shaped) (x : Char)
    (hx : w.getLast? = some x) :
  isBlank x = false
  := by
  induction h with
  | nil => cases hx
  | @cons c cs gap w hgap hstar hlast h ih =>
    obtain ⟨hc, hcs⟩ := List.forall_mem_cons.mp hcs
    cases h with
    | nil =>
      rw [hlast rfl, List.append_nil, List.append_nil] at hx
      apply last_core hc hx
    | @cons d ds gap' w hgap' hstar' hlast' h =>
      apply ih hcs
      rw [← List.append_assoc, List.getLast?_append_of_ne_nil] at hx
      · apply hx
      · simp [core_ne_nil]

/-- A written line starts with the mark of its first command. -/
theorem Written.head (h : Written cs w) :
  w.head? = cs.head?.map fun c => mark c.verb
  := by
  cases h with
  | nil => rfl
  | @cons c cs gap w hgap hstar hlast h =>
    obtain ⟨t, ht⟩ := core_eq_cons c
    rw [ht]
    rfl

theorem mark_not_inner (verb : Verb) :
  isInner (mark verb) = false ∧ mark verb ≠ dot
  := by
  cases verb <;> exact ⟨rfl, by simp [mark, dot]⟩

theorem mark_ne_star {verb : Verb} (h : verb ≠ .checkpoint) :
  mark verb ≠ '*'
  := by
  cases verb with
  | checkpoint => cases h rfl
  | _ => simp [mark]

/-- Nothing goes on over a gap and a written line. -/
theorem Written.ends {gap t : Text} (h : Written cs w) (hgap : ∀ x ∈ gap, x = ' ' ∨ x = '-')
    (ht : cs = [] → LineEnd t) :
  Ends (gap ++ (w ++ t))
  := by
  intro x hx
  obtain _ | ⟨y, gap⟩ := gap
  · obtain _ | ⟨y, w⟩ := w
    · have hnil : cs = [] := by
        have hhead := h.head
        rw [List.head?_nil, eq_comm, Option.map_eq_none_iff, List.head?_eq_none_iff] at hhead
        apply hhead
      rw [LineEnd.head (ht hnil) x hx]
      decide
    · obtain ⟨⟩ := hx
      have hhead := h.head
      rw [List.head?_cons, eq_comm, Option.map_eq_some_iff] at hhead
      obtain ⟨c, -, hc⟩ := hhead
      rw [← hc]
      apply mark_not_inner
  · obtain ⟨⟩ := hx
    obtain rfl | rfl := hgap x List.mem_cons_self
    · decide
    · decide

end Text

section Legible

theorem remarkNoun_of_legible {c : Command} (hc : c.Shaped) (hlegible : c.Legible)
    (hremark : c.verb.isRemark) :
  remarkNoun c.verb c.noun = c.noun
  := by
  obtain ⟨verb, noun⟩ := c
  cases verb with
  | comment => apply hc.2.trim_eq
  | reset =>
    have hdrop : noun.dropWhile isInlineFiller = noun := by
      obtain _ | ⟨x, noun⟩ := noun
      · rfl
      · apply List.dropWhile_cons_of_neg
        intro hx
        have hblank := hc.2.head x rfl
        simp only [isInlineFiller, Bool.or_eq_true, beq_iff_eq] at hx
        obtain ((rfl | rfl) | rfl) | rfl := hx
        · cases hblank
        · apply hlegible rfl
        · cases hblank
        · cases hblank
    rw [remarkNoun, if_pos rfl, hdrop, hc.2.trim_eq]
  | _ => cases hremark

theorem skip_gap {gap : Text} (hgap : ∀ x ∈ gap, x = ' ' ∨ x = '-') :
  skip gap = []
  := by
  apply List.dropWhile_eq_nil_iff.mpr
  intro x hx
  obtain rfl | rfl := hgap x hx
  · rfl
  · rfl

theorem commands_gap {gap t : Text} (hgap : ∀ x ∈ gap, x = ' ' ∨ x = '-') :
  commands (gap ++ t) = commands t
  := commands_congr (skip_append_of_nil (skip_gap hgap) t)

theorem commands_lineEnd (he : LineEnd e) :
  commands e = .ok []
  := by
  obtain rfl | rfl := he
  · apply commands_nil rfl
  · apply commands_nil rfl

/-- The command that is read where the text of a command has other text behind it, which a remark
takes. -/
def retake (rest : Text) (c : Command) : Command :=
  if c.verb.isRemark then ⟨c.verb, remarkNoun c.verb (c.noun ++ rest)⟩ else reread c

theorem verb_retake (rest : Text) (c : Command) :
  (retake rest c).verb = c.verb
  := by
  rw [retake]
  split
  · rfl
  · apply verb_reread

theorem reread_of_remark {c : Command} (h : c.verb.isRemark) :
  reread c = c
  := by
  obtain ⟨verb, noun⟩ := c
  cases verb with
  | comment => rfl
  | reset => rfl
  | _ => cases h

theorem retake_of_not_remark {c : Command} (h : c.verb.isRemark = false) (rest : Text) :
  retake rest c = reread c
  := by
  rw [retake, h]
  rfl

/-- Only a remark at the end of the commands takes the text. -/
def Takes (cs : List Command) (rest : Text) : Prop :=
  rest = [] ∨ ∃ c, cs.getLast? = some c ∧ c.verb.isRemark

theorem Takes.tail {c : Command} {cs : List Command} {rest : Text} (h : Takes (c :: cs) rest)
    (hc : c.verb.isRemark = false) :
  Takes cs rest
  := by
  obtain rfl | ⟨d, hd, hremark⟩ := h
  · apply Or.inl rfl
  · obtain _ | ⟨e, cs⟩ := cs
    · rw [List.getLast?_singleton, Option.some_inj] at hd
      rw [← hd, hc] at hremark
      cases hremark
    · rw [List.getLast?_cons_cons] at hd
      apply Or.inr ⟨d, hd, hremark⟩

/-- A star in front of a written line is a checkpoint in front of the commands of the line. -/
theorem commands_star_written {t : Text} {f : Command → Command} (hf : ∀ c, (f c).verb = c.verb)
    (h : Written cs w) (ht : cs = [] → LineEnd t)
    (hw : commands (w ++ t) = .ok (fused (cs.map f))) :
  commands ('*' :: (w ++ t)) = .ok (fuse oneStar (fused (cs.map f)))
  := by
  cases h with
  | nil =>
    have ht := ht rfl
    rw [List.nil_append, commands_star_of_not_star, commands_lineEnd ht]
    · rfl
    · intro c hc
      rw [LineEnd.head ht c hc]
      decide
  | @cons c cs gap w hgap hstar hlast h =>
    by_cases hc : c.verb = .checkpoint
    · have hcore : core c = ['*'] := by
        rw [core, hc]
      rw [hcore] at hw ⊢
      apply (commands_star_star _).trans
      apply (congrArg (Except.map (fuse oneStar)) hw).trans
      rfl
    · have hne : (f c).verb ≠ .checkpoint := by
        rw [hf]
        apply hc
      rw [List.map_cons, fused_cons, fuse_of_not_checkpoint hne] at hw ⊢
      rw [commands_star_of_not_star, hw]
      · rw [fuse, if_neg fun hand => hne hand.2]
        rfl
      · intro x hx
        obtain ⟨t, ht⟩ := core_eq_cons c
        rw [ht] at hx
        obtain ⟨⟩ := hx
        apply mark_ne_star hc

/-- A written line, with a text that its last command takes, is read as the commands that it was
written from. -/
theorem commands_written_append {rest : Text} (h : Written cs w) (hshaped : ∀ c ∈ cs, c.Shaped)
    (hread : ReadableLine cs) (hrest : Takes cs rest) (hnewline : '\n' ∉ rest) (he : LineEnd e) :
  commands (w ++ (rest ++ e)) = .ok (fused (cs.map (retake rest)))
  := by
  induction h with
  | nil =>
    obtain rfl | ⟨c, hc, -⟩ := hrest
    · apply commands_lineEnd he
    · cases hc
  | @cons c cs gap w hgap hstar hlast h ih =>
    obtain ⟨hc, hcs⟩ := List.forall_mem_cons.mp hshaped
    rw [List.map_cons, fused_cons, List.append_assoc, List.append_assoc]
    cases hremark : c.verb.isRemark with
    | false =>
      have htail := hrest.tail hremark
      have htext : cs = [] → rest = [] := by
        rintro rfl
        obtain hrest | ⟨d, hd, -⟩ := htail
        · apply hrest
        · cases hd
      have hw := ih hcs hread.tail htail
      rw [retake_of_not_remark hremark]
      by_cases hcheckpoint : c.verb = .checkpoint
      · have hcore : core c = ['*'] ∧ reread c = oneStar := by
          rw [core, reread, hcheckpoint]
          exact ⟨rfl, rfl⟩
        rw [hcore.1, hcore.2, hstar hcheckpoint]
        apply commands_star_written (verb_retake rest) h _ hw
        intro hnil
        rw [htext hnil]
        apply he
      · have hlegible : c.Legible := by
          obtain hlegible | hreset := hread.legible c List.mem_cons_self
          · apply hlegible
          · rw [hreset] at hremark
            cases hremark
        have hfuse : fuse (reread c) (fused (cs.map (retake rest))) =
            reread c :: fused (cs.map (retake rest)) := by
          apply fuse_of_not_checkpoint
          rw [verb_reread]
          apply hcheckpoint
        have hends : Ends (gap ++ (w ++ (rest ++ e))) := by
          apply h.ends hgap
          intro hnil
          rw [htext hnil]
          apply he
        rw [hfuse, commands_core hc hlegible hremark hcheckpoint hends, commands_gap hgap, hw]
        rfl
    | true =>
      -- A remark is the last command, so that only the text stands behind its noun.
      obtain rfl := eq_nil_of_remark hread.remark hremark
      cases h
      have hline : '\n' ∉ c.noun ++ rest := by
        intro hmem
        obtain hmem | hmem := List.mem_append.mp hmem
        · apply newline_not_mem_noun hc hremark hmem
        · apply hnewline hmem
      rw [hlast rfl, List.nil_append, List.nil_append, commands_remark hremark hline he, retake,
        if_pos hremark]
      rfl

/-- A written line is read as the commands that it was written from. -/
theorem commands_written (h : Written cs w) (hshaped : ∀ c ∈ cs, c.Shaped)
    (hlegible : LegibleLine cs) (he : LineEnd e) :
  commands (w ++ e) = .ok (fused (cs.map reread))
  := by
  have hread := commands_written_append h hshaped hlegible.readable (.inl rfl) List.not_mem_nil he
  have hmap : cs.map (retake []) = cs.map reread := by
    apply List.map_congr_left
    intro c hc
    rw [retake]
    split
    · rename_i hremark
      rw [List.append_nil, remarkNoun_of_legible (hshaped c hc) (hlegible.legible c hc) hremark,
        reread_of_remark hremark]
    · rfl
  rw [hmap] at hread
  apply hread

theorem joined_reread (h : Barred cs) :
  joined (cs.map reread) = joined cs
  := by
  induction cs with
  | nil => rfl
  | cons c cs ih =>
    obtain ⟨hc, hcs⟩ := List.forall_mem_cons.mp h
    rw [List.map_cons, joined_cons, joined_cons, ih hcs, reread]
    split
    · rename_i hverb
      rw [← hc hverb, ← hverb]
    · rename_i hverb
      rw [join_checkpoint hverb]
    · rfl

end Legible

section Weight

theorem weight_reread (c : Command) :
  (reread c).weight ≤ c.weight ∧ (c.verb = .measure → c.noun ≠ ['|'] → (reread c).weight < c.weight)
  := by
  obtain ⟨verb, noun⟩ := c
  cases verb with
  | measure =>
    constructor
    · apply kindWeight_pos
    · intro _ hnoun
      have hne : (noun == ['|']) = false := beq_eq_false_iff_ne.mpr hnoun
      have hweight : Command.weight ⟨.measure, noun⟩ = kindWeight (noun == ['|']) := rfl
      rw [hweight, hne]
      exact Nat.one_lt_two
  | _ => exact ⟨le_rfl, nofun⟩

/-- A reset with dashes in front of its noun loses them. -/
theorem weight_remarkNoun_of_not_legible {c : Command} (hlegible : ¬c.Legible)
    (hremark : c.verb.isRemark) :
  Command.weight ⟨c.verb, remarkNoun c.verb c.noun⟩ < c.weight
  := by
  obtain ⟨verb, noun⟩ := c
  cases verb with
  | comment => cases hlegible trivial
  | reset =>
    obtain _ | ⟨x, noun⟩ := noun
    · cases hlegible nofun
    · obtain rfl : x = '-' := by
        by_contra hx
        apply hlegible
        intro h
        apply hx (Option.some.inj h)
      have hlead : (remarkNoun .reset ('-' :: noun)).lead ≤ Text.lead noun := by
        apply (Text.lead_trim_le _).trans
        rw [List.dropWhile_cons_of_pos rfl]
        apply Text.lead_dropWhile_le
        intro c hc
        simp only [isInlineFiller, Bool.or_eq_true, beq_iff_eq] at hc
        obtain ((rfl | rfl) | rfl) | rfl := hc <;> rfl
      have hcons := Text.lead_cons (c := '-') rfl noun
      have hnew := kindWeight_le (!isLengthText (remarkNoun .reset ('-' :: noun)))
      have hold := kindWeight_pos (!isLengthText ('-' :: noun))
      simp only [Command.weight]
      omega
  | _ => cases hremark

theorem lead_of_isLengthText {t : Text} (h : isLengthText t) :
  ∃ x u, t = x :: u ∧ Text.isLead x = false
  := by
  obtain ⟨length, dots, rfl, hne, hfraction, -⟩ := exists_of_isLengthText h
  obtain _ | ⟨x, length⟩ := length
  · cases hne rfl
  · use x, length ++ dots, rfl
    have hx := hfraction x List.mem_cons_self
    rw [Text.isLead, isBlank_eq_false_of_isInner (isInner_of_isFractionChar x hx), Bool.or_false]
    apply beq_eq_false_iff_ne.mpr
    rintro rfl
    cases hx

/-- A text behind the noun of a remark that was read from a note becomes a part of its noun. -/
theorem remarkNoun_append {c : Command} {rest : Text} (hc : c.Shaped) (hremark : c.verb.isRemark)
    (hlength : isLengthText c.noun) (hne : rest ≠ []) (hrest : '\n' ∉ rest)
    (hlast : ∀ x, rest.getLast? = some x → isBlank x = false) :
  remarkNoun c.verb (c.noun ++ rest) = c.noun ++ rest
  := by
  obtain ⟨x, u, hnoun, hx⟩ := lead_of_isLengthText hlength
  rw [Text.isLead, Bool.or_eq_false_iff] at hx
  have hnewline : '\n' ∉ c.noun ++ rest := by
    intro hmem
    obtain h | h := List.mem_append.mp hmem
    · apply newline_not_mem_noun hc hremark h
    · apply hrest h
  have htrimmed : Trimmed (c.noun ++ rest) := by
    constructor
    · intro y hy
      rw [hnoun] at hy
      obtain ⟨⟩ := hy
      apply hx.2
    · intro y hy
      rw [List.getLast?_append_of_ne_nil _ hne] at hy
      apply hlast y hy
  cases hverb : c.verb with
  | comment =>
    apply remarkNoun_of_legible (c := ⟨.comment, c.noun ++ rest⟩) ⟨hnewline, htrimmed⟩ trivial rfl
  | reset =>
    apply remarkNoun_of_legible (c := ⟨.reset, c.noun ++ rest⟩) ⟨hnewline, htrimmed⟩ _ rfl
    intro hhead
    dsimp only at hhead
    rw [hnoun] at hhead
    obtain ⟨⟩ := hhead
    cases hx.1
  | _ =>
    rw [hverb] at hremark
    cases hremark

/-- A remark that was read from a note becomes lighter by taking a text with a mark in it. -/
theorem weight_remarkNoun_append {c : Command} {rest : Text} {v : Verb} (hc : c.Shaped)
    (hremark : c.verb.isRemark) (hlength : isLengthText c.noun) (hmark : mark v ∈ rest)
    (hrest : '\n' ∉ rest) (hlast : ∀ x, rest.getLast? = some x → isBlank x = false) :
  Command.weight ⟨c.verb, remarkNoun c.verb (c.noun ++ rest)⟩ < c.weight
  := by
  have hnotLength : isLengthText (c.noun ++ rest) = false := by
    apply Bool.eq_false_iff.mpr
    intro hlength
    obtain ⟨hinner, hdot⟩ := mark_not_inner v
    obtain h | h := isFractionChar_of_isLengthText hlength _ (List.mem_append_right _ hmark)
    · rw [isInner_of_isFractionChar _ h] at hinner
      cases hinner
    · apply hdot h
  have hkept := remarkNoun_append hc hremark hlength (List.ne_nil_of_mem hmark) hrest hlast
  obtain ⟨x, u, hnoun, hx⟩ := lead_of_isLengthText hlength
  have hleads : c.noun.lead = 0 ∧ Text.lead (c.noun ++ rest) = 0 := by
    rw [hnoun]
    exact ⟨Text.lead_cons_of_not_lead hx _, Text.lead_cons_of_not_lead hx _⟩
  obtain ⟨verb, noun⟩ := c
  cases verb with
  | comment => simp_all [Command.weight, kindWeight]
  | reset => simp_all [Command.weight, kindWeight]
  | _ => cases hremark

theorem weight_fuse (c : Command) (cs : List Command) :
  weight (fuse c cs) = c.weight + weight cs
  := by
  rw [← weight_joined, joined_fuse, weight_join, weight_joined]

theorem weight_of_star {t : Text} {ds : List Command} (h : commands ('*' :: t) = .ok ds) :
  ∃ ds', commands t = .ok ds' ∧ weight ds = weight ds'
  := by
  by_cases hstar : ∃ u, t = '*' :: u
  · obtain ⟨u, rfl⟩ := hstar
    rw [commands_star_star] at h
    obtain ⟨ds', hds', rfl⟩ := map_eq_ok h
    use ds', hds'
    rw [weight_fuse, weight_checkpoint rfl, Nat.zero_add]
  · rw [commands_star_of_not_star] at h
    · obtain ⟨ds', hds', rfl⟩ := map_eq_ok h
      use ds', hds'
      rw [weight_cons, weight_checkpoint rfl, Nat.zero_add]
    · rintro c hc rfl
      apply hstar
      apply List.head?_eq_some_iff.mp hc

/-- Behind a legible command that is no remark, the rest of a written line is read. -/
theorem commands_written_cons {c : Command} {gap : Text} (hgap : ∀ x ∈ gap, x = ' ' ∨ x = '-')
    (hstar : c.verb = .checkpoint → gap = []) (h : Written cs w) (hc : c.Shaped)
    (hlegible : c.Legible) (hremark : c.verb.isRemark = false) (he : LineEnd e)
    {ds : List Command} (hds : commands (core c ++ (gap ++ w) ++ e) = .ok ds) :
  ∃ ds', commands (w ++ e) = .ok ds' ∧ weight ds = (reread c).weight + weight ds'
  := by
  rw [List.append_assoc, List.append_assoc] at hds
  by_cases hcheckpoint : c.verb = .checkpoint
  · have hcore : core c = ['*'] ∧ reread c = oneStar := by
      rw [core, reread, hcheckpoint]
      exact ⟨rfl, rfl⟩
    rw [hcore.1, hstar hcheckpoint] at hds
    obtain ⟨ds', hds', hweight⟩ := weight_of_star hds
    use ds', hds'
    rw [hcore.2, weight_checkpoint verb_oneStar, Nat.zero_add, hweight]
  · rw [commands_core hc hlegible hremark hcheckpoint (h.ends hgap fun _ => he),
      commands_gap hgap] at hds
    obtain ⟨ds', hds', rfl⟩ := map_eq_ok hds
    use ds', hds'
    apply weight_cons

/-- A remark comes back as it was, or it becomes lighter. -/
theorem weight_of_remark {c : Command} {gap : Text} (h : Written (c :: cs) (core c ++ (gap ++ w)))
    (hshaped : ShapedLine (c :: cs)) (hremark : c.verb.isRemark) (hw : Written cs w)
    (hlast : cs = [] → gap = []) :
  Command.weight ⟨c.verb, remarkNoun c.verb (c.noun ++ (gap ++ w))⟩ < c.weight ∨
    cs = [] ∧ c.Legible ∧ remarkNoun c.verb (c.noun ++ (gap ++ w)) = c.noun
  := by
  have hc := hshaped.shaped c List.mem_cons_self
  cases hw with
  | nil =>
    rw [hlast rfl, List.append_nil, List.append_nil]
    by_cases hlegible : c.Legible
    · apply Or.inr ⟨rfl, hlegible, remarkNoun_of_legible hc hlegible hremark⟩
    · apply Or.inl (weight_remarkNoun_of_not_legible hlegible hremark)
  | @cons d ds gap' w' hgap' hstar' hlast' hw =>
    have hlength : isLengthText c.noun := by
      apply hshaped.remark c _ hremark
      rw [List.dropLast_cons_of_ne_nil (List.cons_ne_nil d ds)]
      apply List.mem_cons_self
    apply Or.inl
    apply weight_remarkNoun_append (v := d.verb) hc hremark hlength
    · obtain ⟨t, ht⟩ := core_eq_cons d
      rw [ht]
      simp
    · intro hmem
      apply h.newline hshaped.shaped
      apply List.mem_append_right _ hmem
    · intro x hx
      apply h.last hshaped.shaped x
      rw [List.getLast?_append_of_ne_nil]
      · apply hx
      · simp [core_ne_nil]

/-- A command that comes back alone leaves it to the others whether the line becomes lighter, unless
it is a measure that was not read from a bar. -/
theorem weight_reread_cons {c : Command} {ds : List Command} (hlegible : c.Legible)
    (hremark : c.verb.isRemark = false) (hle : weight ds ≤ weight cs)
    (hlt : ¬(LegibleLine cs ∧ Barred cs) → weight ds < weight cs) :
  (reread c).weight + weight ds ≤ weight (c :: cs) ∧
    (¬(LegibleLine (c :: cs) ∧ Barred (c :: cs)) →
      (reread c).weight + weight ds < weight (c :: cs))
  := by
  obtain ⟨hle', hlt'⟩ := weight_reread c
  rw [weight_cons]
  use Nat.add_le_add hle' hle
  intro hnot
  by_cases hrest : LegibleLine cs ∧ Barred cs
  · apply Nat.add_lt_add_of_lt_of_le _ hle
    by_contra hbar
    apply hnot
    constructor
    · apply LegibleLine.cons hlegible (fun _ => hremark) hrest.1
    · apply List.forall_mem_cons.mpr ⟨_, hrest.2⟩
      intro hmeasure
      by_contra hnoun
      apply hbar (hlt' hmeasure hnoun)
  · apply Nat.add_lt_add_of_le_of_lt hle' (hlt hrest)

/-- The commands read from a written line weigh no more than those it was written from, and less if
these are not read from it. -/
theorem weight_of_written (h : Written cs w) (hshaped : ShapedLine cs) (he : LineEnd e)
    {ds : List Command} (hds : commands (w ++ e) = .ok ds) :
  weight ds ≤ weight cs ∧ (¬(LegibleLine cs ∧ Barred cs) → weight ds < weight cs)
  := by
  induction h generalizing ds with
  | nil =>
    rw [List.nil_append, commands_lineEnd he] at hds
    obtain ⟨⟩ := hds
    use le_rfl
    intro hnot
    apply absurd _ hnot
    apply And.intro ⟨nofun, nofun⟩ nofun
  | @cons c cs gap w hgap hstar hlast h ih =>
    have hc := hshaped.shaped c List.mem_cons_self
    have hwritten := Written.cons hgap hstar hlast h
    cases hremark : c.verb.isRemark with
    | true =>
      have hnewline : '\n' ∉ c.noun ++ (gap ++ w) := by
        intro hmem
        obtain hmem | hmem := List.mem_append.mp hmem
        · apply newline_not_mem_noun hc hremark hmem
        · apply hwritten.newline hshaped.shaped (List.mem_append_right _ hmem)
      rw [List.append_assoc, commands_remark hremark hnewline he] at hds
      obtain ⟨⟩ := hds
      rw [weight_cons, weight_cons, weight_nil, Nat.add_zero]
      obtain hless | ⟨rfl, hlegible, hnoun⟩ := weight_of_remark hwritten hshaped hremark h hlast
      · have hless := Nat.lt_add_right (weight cs) hless
        exact ⟨hless.le, fun _ => hless⟩
      · rw [hnoun]
        use le_rfl
        intro hnot
        apply absurd _ hnot
        constructor
        · apply LegibleLine.cons hlegible (fun hne => absurd rfl hne) ⟨nofun, nofun⟩
        · intro d hd hmeasure
          rw [List.mem_singleton.mp hd] at hmeasure
          rw [hmeasure] at hremark
          cases hremark
    | false =>
      by_cases hlegible : c.Legible
      · -- The command comes back alone, so that the others decide.
        obtain ⟨ds', hds', hweight⟩ :=
          commands_written_cons hgap hstar h hc hlegible hremark he hds
        obtain ⟨hle, hlt⟩ := ih hshaped.tail hds'
        rw [hweight]
        apply weight_reread_cons hlegible hremark hle hlt
      · have hreset : c.verb ≠ .reset := by
          intro hreset
          rw [hreset] at hremark
          cases hremark
        obtain ⟨o, ho⟩ := commands_core_of_not_legible hc hlegible hreset (gap ++ (w ++ e))
        rw [List.append_assoc, List.append_assoc, ho] at hds
        cases hds

end Weight

end Layout

end Tunescript
