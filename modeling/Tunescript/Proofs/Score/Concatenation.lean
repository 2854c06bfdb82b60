import Tunescript.Proofs.Score.Acceptance
import Tunescript.Proofs.Score.Shape
import Tunescript.Proofs.Text.Lines

/-!
# Scores that are joined

A phrase of a score is a phrase in front of any other score as well, unless it is a remark that only
the end of the score ends (`Spells.in_front_of`).  So the commands of two scores that are joined are
those of the first and then those of the second, if no remark and no run of stars goes on from the
first into the second (`commands_of_joined`).  A line end ends every remark, and the commands of a
score are those of its lines, where these can be read by themselves (`commands_lines_append`).
-/

namespace Tunescript.Score

open Text (endsLine)

variable {a b p r t : Text} {c : Command} {cs ds : List Command} {ps : List Phrase}

/-- A remark without a line end does not end a line. -/
theorem not_endsLine_remark {w line : Text} {x : Char} (hx : x ≠ '\n') (hline : '\n' ∉ line) :
  ¬endsLine (w ++ x :: line)
  := by
  intro hends
  have hrest := Text.endsLine_of_suffix hends (List.suffix_append w (x :: line))
    (List.cons_ne_nil _ _)
  obtain heq | hmem := List.mem_cons.mp (Text.mem_of_endsLine hrest)
  · apply hx heq.symm
  · apply hline hmem

/-- A phrase is a phrase in front of any other score, unless it is a remark that the end of the
score ends. -/
theorem Spells.in_front_of (h : Spells r p c)
    (hend : r = [] → endsLine p ∨ c.verb ≠ .comment ∧ c.verb ≠ .reset) (b : Text) :
  Spells b p c
  := by
  have hclosed {w line e : Text} (x : Char) (hx : x ≠ '\n') (hline : '\n' ∉ line)
      (he : e = ['\n'] ∨ e = [] ∧ r = []) (hends : r = [] → endsLine [w, [x], line, e].flatten) :
      e = ['\n'] ∨ e = [] ∧ b = [] := by
    obtain he | ⟨rfl, hr⟩ := he
    · exact .inl he
    · apply absurd (hends hr)
      simpa using not_endsLine_remark hx hline
  cases h with
  | comment hw hline he =>
    apply Spells.comment hw hline
    apply hclosed '~' (by decide) hline he
    intro hr
    apply (hend hr).resolve_right fun hverb => hverb.1 rfl
  | reset hw hline he =>
    apply Spells.reset hw hline
    apply hclosed ';' (by decide) hline he
    intro hr
    apply (hend hr).resolve_right fun hverb => hverb.2 rfl
  | tempo hw₁ hw₂ hnumber hw₃ hw₄ => apply Spells.tempo hw₁ hw₂ hnumber hw₃ hw₄
  | time hw₁ hw₂ hfraction hw₃ hw₄ => apply Spells.time hw₁ hw₂ hfraction hw₃ hw₄
  | checkpoint hw₁ hstars hw₂ => apply Spells.checkpoint hw₁ hstars hw₂
  | voice hw₁ hw₂ hname hw₃ => apply Spells.voice hw₁ hw₂ hname hw₃
  | measure hw₁ hw₂ => apply Spells.measure hw₁ hw₂
  | note hw₁ hw₂ hname hw₃ hfraction hinner hw₄ houter hw₅ =>
    apply Spells.note hw₁ hw₂ hname hw₃ hfraction hinner hw₄ houter hw₅

/-- The last of the commands of a text is a remark that no line end ends. -/
def OpenRemark (cs : List Command) (t : Text) : Prop :=
  endsLine t = false ∧ ∃ c, cs.getLast? = some c ∧ (c.verb = .comment ∨ c.verb = .reset)

theorem OpenRemark.append (h : OpenRemark cs t) (ht : t ≠ []) (p : Text) (c : Command) :
  OpenRemark (c :: cs) (p ++ t)
  := by
  obtain ⟨hends, d, hlast, hverb⟩ := h
  constructor
  · rwa [Text.endsLine_append_of_ne_nil p ht]
  · use d
    rw [List.getLast?_cons, hlast]
    exact ⟨rfl, hverb⟩

/-- Stars that go on from the end of a text go on from the text. -/
theorem CutsStars.append (h : CutsStars t b) (p : Text) :
  CutsStars (p ++ t) b
  := by
  have hne : t ≠ [] := by
    rintro rfl
    cases h.1
  rw [CutsStars, List.getLast?_append_of_ne_nil _ hne]
  apply h

/-- In front of a text that goes on none of its commands, a score is read by itself. -/
theorem commands_of_joined (h : Spelled ps a) (hwhole : WholeStars ps) (hb : Ends b)
    (hremark : ¬OpenRemark (ps.map Phrase.command) a) (hstars : ¬CutsStars a b) :
  commands (a ++ b) = (commands b).map (ps.map Phrase.command ++ ·)
  := by
  induction h with
  | filler hw =>
    rw [commands_congr (hw.skip_append b)]
    cases commands b with
    | ok ds => rfl
    | error o => rfl
  | @phrase p c ps t hp h ih =>
    have hspells : Spells (t ++ b) p c := by
      apply hp.in_front_of
      rintro rfl
      obtain rfl := h.eq_nil
      rw [List.append_nil] at hremark
      by_contra hopen
      rw [not_or, Bool.not_eq_true] at hopen
      apply hremark ⟨hopen.1, c, rfl, _⟩
      tauto
    -- Behind the phrase stands the rest of the score, or the other text.
    have hrest : Ends (t ++ b) ∧ ¬CutsStars p (t ++ b) := by
      obtain rfl | hne := eq_or_ne t []
      · rw [List.append_nil] at hstars
        exact ⟨hb, hstars⟩
      · rw [Ends, CutsStars, List.head?_append_of_ne_nil _ hne]
        use h.ends
        intro hcut
        obtain ⟨q, hq, hcut⟩ := (h.cutsStars_iff p).mp hcut
        apply (List.isChain_cons.mp hwhole).1 q hq hcut
    have hread := commands_of_readsAs (readsAs_of_spells hspells hrest.1 hrest.2)
    have htail : ¬OpenRemark (ps.map Phrase.command) t := by
      intro hopen
      apply hremark
      apply hopen.append
      rintro rfl
      obtain rfl := h.eq_nil
      obtain ⟨-, d, hlast, -⟩ := hopen
      cases hlast
    rw [List.append_assoc, hread, ih hwhole.tail htail fun hcut => hstars (hcut.append p)]
    cases commands b with
    | ok ds => rfl
    | error o => rfl

/-- Lines that can be read by themselves are read in front of what stands behind them. -/
theorem commands_lines_append {ls ms : List Text} {css : List (List Command)}
    (hlines : Text.Lines (ls ++ ms)) (h : List.Forall₂ (fun l cs => commands l = .ok cs) ls css) :
  commands (ls ++ ms).flatten = (commands ms.flatten).map (css.flatten ++ ·)
  := by
  induction h with
  | nil =>
    rw [List.nil_append]
    cases commands ms.flatten with
    | ok ds => rfl
    | error o => rfl
  | @cons l cs ls css hcs h ih =>
    have hends : endsLine l ∨ (ls ++ ms).flatten = [] :=
      hlines.endsLine_or.imp_right fun hnil => congrArg List.flatten hnil
    rw [List.cons_append, List.flatten_cons, commands_append hends hcs, ih hlines.tail]
    cases commands ms.flatten with
    | ok ds => simp [Except.map]
    | error o => rfl

theorem readLine_eq_ok :
  readLine t = .ok cs ↔ IsLine t ∧ commands t = .ok cs
  := by
  rw [← newline_not_mem_dropLast_iff, ← read_eq_ok, readLine]
  split
  · rename_i h
    simp [List.contains_iff_mem.mp h]
  · rename_i h
    rw [and_iff_right fun hmem => h (List.contains_iff_mem.mpr hmem)]
    cases read t with
    | ok cs => simp
    | error e => simp

/-- Two scores that are joined have the commands of the first and then those of the second, if the
first ends with a line end or with a command that is no remark, and no stars go on from it into the
second. The commands of a score are those of its lines, if these can be read by themselves. -/
theorem read_append :
  (∀ a b cs ds, read a = .ok cs → read b = .ok ds →
    (a = [] ∨ endsLine a ∨ ∀ c, cs.getLast? = some c → c.verb ≠ .comment ∧ c.verb ≠ .reset) →
    ¬CutsStars a b → read (a ++ b) = .ok (cs ++ ds)) ∧
  ∀ t css, List.Forall₂ (fun l cs => readLine l = .ok cs) (Text.lines t) css →
    read t = .ok css.flatten
  := by
  constructor
  · intro a b cs ds ha hb hend hstars
    obtain ⟨ps, hps, hwhole, rfl⟩ := spelled_of_commands (read_eq_ok.mp ha)
    obtain ⟨qs, hqs, -⟩ := spelled_of_commands (read_eq_ok.mp hb)
    have hremark : ¬OpenRemark (ps.map Phrase.command) a := by
      rintro ⟨hopen, c, hlast, hverb⟩
      obtain rfl | hends | hverbs := hend
      · rw [hps.eq_nil] at hlast
        cases hlast
      · rw [hopen] at hends
        cases hends
      · obtain hcomment | hreset := hverb
        · apply (hverbs c hlast).1 hcomment
        · apply (hverbs c hlast).2 hreset
    rw [read_eq_ok, commands_of_joined hps hwhole hqs.ends hremark hstars, read_eq_ok.mp hb]
    rfl
  · intro t css hlines
    have hcommands := hlines.imp fun l cs hl => (readLine_eq_ok.mp hl).2
    have hall : Text.Lines (Text.lines t ++ []) := by
      rw [List.append_nil]
      apply Text.lines_lines
    have hread := commands_lines_append hall hcommands
    rw [List.append_nil, Text.flatten_lines] at hread
    rw [read_eq_ok, hread, List.flatten_nil, commands_nil rfl]
    apply congrArg Except.ok (List.append_nil css.flatten)

/-- A dotted note is joined with stars, and a remark with the line behind it. -/
theorem read_append_dottedNote :
  read "| (Cn_4 1/4)+".toList = .ok [⟨.measure, ['|']⟩, ⟨.note "Cn_4".toList, "1/4+".toList⟩] ∧
    read "** ; coda".toList = .ok [⟨.checkpoint, "**".toList⟩, ⟨.reset, "coda".toList⟩] ∧
    read "| (Cn_4 1/4)+** ; coda".toList =
      .ok [⟨.measure, ['|']⟩, ⟨.note "Cn_4".toList, "1/4+".toList⟩, ⟨.checkpoint, "**".toList⟩,
        ⟨.reset, "coda".toList⟩] ∧
    readLine "; coda\n".toList = .ok [⟨.reset, "coda".toList⟩] ∧
    readLine "*".toList = .ok [⟨.checkpoint, "*".toList⟩] ∧
    read "; coda\n*".toList = .ok [⟨.reset, "coda".toList⟩, ⟨.checkpoint, "*".toList⟩]
  := by
  have hnote : read "| (Cn_4 1/4)+".toList =
      .ok [⟨.measure, ['|']⟩, ⟨.note "Cn_4".toList, "1/4+".toList⟩] := by decide +kernel
  have hcoda : read "** ; coda".toList =
      .ok [⟨.checkpoint, "**".toList⟩, ⟨.reset, "coda".toList⟩] := by decide +kernel
  have hreset : readLine "; coda\n".toList = .ok [⟨.reset, "coda".toList⟩] := by decide +kernel
  have hstar : readLine "*".toList = .ok [⟨.checkpoint, "*".toList⟩] := by decide +kernel
  refine ⟨hnote, hcoda, ?_, hreset, hstar, ?_⟩
  · apply read_append.1 _ _ _ _ hnote hcoda
    · refine .inr (.inr ?_)
      rintro c ⟨⟩
      exact ⟨nofun, nofun⟩
    · rintro ⟨hlast, -⟩
      cases hlast
  · have hlines : Text.lines "; coda\n*".toList = ["; coda\n".toList, "*".toList] := by
      decide +kernel
    apply read_append.2 _ [[⟨.reset, "coda".toList⟩], [⟨.checkpoint, "*".toList⟩]]
    rw [hlines]
    exact List.Forall₂.cons hreset (List.Forall₂.cons hstar List.Forall₂.nil)

end Tunescript.Score
