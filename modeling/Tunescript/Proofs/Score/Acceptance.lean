import Tunescript.Proofs.Score.Grammar

/-!
# The texts that the reader accepts

What spells a command is read as that command (`readsAs_of_spells`), and what is read as a command
spells it (`spells_of_command`).  So what is read from a score are the commands of its phrases,
provided that no run of stars is cut into several checkpoints (`commands_of_spelled`), and every
text that can be read has such phrases (`spelled_of_commands`): the reader accepts the scores of the
grammar and nothing else (`read_iff_spelled`).
-/

namespace Tunescript.Score

open Text (trim)

section Reading

variable {p r t : Text} {c : Command} {ps : List Phrase}

/-- A text that ends with stars ends with a star. -/
theorem getLast?_append_stars {stars : Text} (hstars : Run (· == '*') stars) (t : Text) :
  (t ++ stars).getLast? = some '*'
  := by
  rw [List.getLast?_append_of_ne_nil _ hstars.1, List.getLast?_eq_some_getLast hstars.1]
  apply congrArg some
  apply eq_of_beq (hstars.2 _ (List.getLast_mem hstars.1))

/-- The text is read as the command, and what is left is the rest but for filler. -/
def ReadsAs (t : Text) (c : Command) (r : Text) : Prop :=
  ∃ r', command t = .ok (c, r') ∧ skip r' = skip r

theorem readsAs_filler {w : Text} (hw : Filler w) :
  ReadsAs (w ++ t) c r ↔ ReadsAs t c r
  := by
  rw [ReadsAs, ReadsAs, command_congr (hw.skip_append t)]

/-- A line with its line end, or at the end of the text, is the rest of the line. -/
theorem restOfLine_exact {line e : Text} (hline : '\n' ∉ line) (he : e = ['\n'] ∨ e = [] ∧ r = []) :
  restOfLine (line ++ (e ++ r)) = (line, r)
  := by
  have hall : ∀ c ∈ line, (c != '\n') = true := by
    intro c hc
    apply bne_iff_ne.mpr
    rintro rfl
    apply hline hc
  have hstop : Stops (· != '\n') (e ++ r) := by
    obtain rfl | ⟨rfl, rfl⟩ := he
    · intro c hc
      cases hc
      rfl
    · intro c hc
      cases hc
  obtain ⟨htake, hdrop⟩ := takeWhile_exact hall hstop
  rw [restOfLine, htake, hdrop]
  obtain rfl | ⟨rfl, rfl⟩ := he
  · rfl
  · rfl

theorem dropWhile_inlineFiller_append {line e : Text} (he : e = ['\n'] ∨ e = [] ∧ r = []) :
  (line ++ (e ++ r)).dropWhile isInlineFiller = line.dropWhile isInlineFiller ++ (e ++ r)
  := by
  rw [List.dropWhile_append]
  split
  · rename_i hnil
    rw [List.isEmpty_iff.mp hnil]
    obtain rfl | ⟨rfl, rfl⟩ := he
    · rfl
    · rfl
  · rfl

theorem skip_run {p : Char → Bool} (hp : ∀ c, p c → isInner c) {b : Text} (hb : Run p b) {w : Text}
    (hw : Filler w) (r : Text) :
  skip (w ++ (b ++ r)) = b ++ r
  := by
  rw [hw.skip_append]
  apply skip_of_inner hb.1
  intro c hc
  apply hp c (hb.2 c hc)

theorem readsAs_tempo {w₂ number w₃ w₄ : Text} (hw₂ : Filler w₂) (hnumber : Run Char.isDigit number)
    (hw₃ : Filler w₃) (hw₄ : Filler w₄) :
  ReadsAs ('[' :: (w₂ ++ (number ++ ("_bpm".toList ++ (w₃ ++ ([']'] ++ (w₄ ++ r)))))))
    ⟨.tempo, number⟩ r
  := by
  have hskip := skip_run (r := "_bpm".toList ++ (w₃ ++ ([']'] ++ (w₄ ++ r))))
    (fun c hc => isInner_of_isFractionChar c (isFractionChar_of_isDigit c hc)) hnumber hw₂
  have hsome := some1_exact (e := .digit) (r := "_bpm".toList ++ (w₃ ++ ([']'] ++ (w₄ ++ r))))
    hnumber.1 hnumber.2 (by
      intro c hc
      cases hc
      rfl)
  have hsuffix : literal tempoSuffix ("_bpm".toList ++ (w₃ ++ ([']'] ++ (w₄ ++ r)))) =
      .ok (w₃ ++ ([']'] ++ (w₄ ++ r))) := literal_append _ _
  have hclose : literal [']'] (skip (w₃ ++ ([']'] ++ (w₄ ++ r)))) = .ok (w₄ ++ r) := by
    rw [hw₃.skip_append]
    apply literal_append
  have htempo : tempo (w₂ ++ (number ++ ("_bpm".toList ++ (w₃ ++ ([']'] ++ (w₄ ++ r)))))) =
      .ok (⟨.tempo, number⟩, skip (w₄ ++ r)) := by
    rw [tempo, hskip]
    simp only [hsome, hsuffix, hclose, bind, Except.bind, pure, Except.pure]
  use skip (w₄ ++ r)
  constructor
  · rw [command_bracket, bracket, htempo]
  · rw [skip_skip, hw₄.skip_append]

theorem readsAs_time {w₂ fraction w₃ w₄ : Text} (hw₂ : Filler w₂)
    (hfraction : Run isFractionChar fraction) (hw₃ : Filler w₃) (hw₄ : Filler w₄) :
  ReadsAs ('[' :: (w₂ ++ (fraction ++ (w₃ ++ (']' :: (w₄ ++ r)))))) ⟨.time, fraction⟩ r
  := by
  have hskip := skip_run (r := w₃ ++ (']' :: (w₄ ++ r))) isInner_of_isFractionChar hfraction hw₂
  have hstop : Stops isFractionChar (w₃ ++ (']' :: (w₄ ++ r))) := by
    apply hw₃.stops (eq_false_of_isFiller isInner_of_isFractionChar)
    intro c hc
    cases hc
    rfl
  have hsome := some1_exact (e := .timeSignature) hfraction.1 hfraction.2 hstop
  have hclose : literal [']'] (skip (w₃ ++ (']' :: (w₄ ++ r)))) = .ok (w₄ ++ r) := by
    rw [hw₃.skip_append]
    apply literal_append [']']
  -- Behind the fraction stands filler or the bracket, but no suffix of a tempo.
  have htempo : ∃ o, tempo (w₂ ++ (fraction ++ (w₃ ++ (']' :: (w₄ ++ r))))) = .error o := by
    have hdrop := (takeWhile_exact hfraction.2 hstop).2
    obtain ⟨x, u, hx⟩ := List.exists_cons_of_ne_nil
      (List.append_ne_nil_of_right_ne_nil w₃ (List.cons_ne_nil ']' (w₄ ++ r)))
    apply tempo_fails (c := x) (u := u)
    · rw [hskip, hdrop, hx]
    · rintro rfl
      have hname : Stops (· == '_') (w₃ ++ ']' :: (w₄ ++ r)) := by
        apply hw₃.stops
        · intro c hc
          apply beq_eq_false_iff_ne.mpr
          rintro rfl
          cases hc
        · intro c hc
          cases hc
          rfl
      cases hname '_' (congrArg List.head? hx)
  obtain ⟨o, ho⟩ := htempo
  have htime : time (w₂ ++ (fraction ++ (w₃ ++ (']' :: (w₄ ++ r))))) =
      .ok (⟨.time, fraction⟩, skip (w₄ ++ r)) := by
    rw [time, hskip]
    simp only [hsome, hclose, bind, Except.bind, pure, Except.pure]
  use skip (w₄ ++ r)
  constructor
  · rw [command_bracket, bracket, ho, htime]
  · rw [skip_skip, hw₄.skip_append]

/-- All stars are read as one checkpoint, so that none may follow them. -/
theorem readsAs_checkpoint {stars w₂ : Text} (hstars : Run (· == '*') stars) (hw₂ : Filler w₂)
    (hcut : ¬CutsStars (stars ++ w₂) r) :
  ReadsAs (stars ++ (w₂ ++ r)) ⟨.checkpoint, stars⟩ r
  := by
  have hstop : Stops (· == '*') (w₂ ++ r) := by
    obtain _ | ⟨d, w₂⟩ := w₂
    · intro c hc
      apply beq_eq_false_iff_ne.mpr
      rintro rfl
      apply hcut ⟨_, hc⟩
      rw [List.append_nil, ← List.nil_append stars]
      apply getLast?_append_stars hstars
    · intro c hc
      obtain rfl := Option.some.inj hc
      have hfiller := hw₂ _ List.mem_cons_self
      apply beq_eq_false_iff_ne.mpr
      rintro rfl
      cases hfiller
  obtain _ | ⟨x, stars⟩ := stars
  · cases hstars.1 rfl
  obtain rfl : x = '*' := eq_of_beq (hstars.2 x List.mem_cons_self)
  have hsplit := takeWhile_exact (fun c hc => hstars.2 c (List.mem_cons_of_mem '*' hc)) hstop
  use skip (w₂ ++ r)
  rw [List.cons_append, command_stars, checkpoint, hsplit.1, hsplit.2, skip_skip, hw₂.skip_append]
  exact ⟨rfl, rfl⟩

theorem readsAs_voice {w₂ name w₃ : Text} (hw₂ : Filler w₂) (hname : Run isNameChar name)
    (hw₃ : Filler w₃) (hr : Ends r) :
  ReadsAs ('%' :: (w₂ ++ (name ++ (w₃ ++ r)))) ⟨.voice, name⟩ r
  := by
  have hskip := skip_run (r := w₃ ++ r) isInner_of_isNameChar hname hw₂
  have hsome := some1_exact (e := .voiceName) (r := w₃ ++ r) hname.1 hname.2
    ((hw₃.ends hr).stops isInner_of_isNameChar)
  use skip (w₃ ++ r)
  constructor
  · rw [command_voice, voice, hskip]
    simp only [hsome, bind, Except.bind, pure, Except.pure]
  · rw [skip_skip, hw₃.skip_append]

theorem readsAs_note {w₂ name w₃ fraction inner w₄ outer w₅ : Text} (hw₂ : Filler w₂)
    (hname : Run isNameChar name) (hw₃ : Run isFiller w₃) (hfraction : Run isFractionChar fraction)
    (hinner : ∀ c ∈ inner, c = '+') (hw₄ : Filler w₄) (houter : ∀ c ∈ outer, c = '+')
    (hw₅ : Filler w₅) (hr : Ends r) :
  ReadsAs
    ('(' :: (w₂ ++
      (name ++ (w₃ ++ (fraction ++ (inner ++ (w₄ ++ (')' :: (outer ++ (w₅ ++ r))))))))))
    ⟨Verb.ofWord name, fraction ++ inner ++ outer⟩ r
  := by
  have hnext {p : Char → Bool} {t u : Text} (ht : t ≠ []) (hp : ∀ c ∈ t, p c = false) :
      Stops p (t ++ u) := by
    intro c hc
    rw [List.head?_append_of_ne_nil _ ht] at hc
    apply hp c (List.mem_of_head? hc)
  have hdots {t : Text} (ht : ∀ c ∈ t, c = '+') : ∀ c ∈ t, (c == dot) = true :=
    fun c hc => beq_iff_eq.mpr (ht c hc)
  have hskip := skip_run (r := w₃ ++ (fraction ++ (inner ++ (w₄ ++ (')' :: (outer ++ (w₅ ++ r)))))))
    isInner_of_isNameChar hname hw₂
  have hsome := some1_exact (e := .noteName)
    (r := w₃ ++ (fraction ++ (inner ++ (w₄ ++ (')' :: (outer ++ (w₅ ++ r))))))) hname.1 hname.2
    (hnext hw₃.1 fun c hc => eq_false_of_isFiller isInner_of_isNameChar c (hw₃.2 c hc))
  have hgap := some1_exact (e := .whitespace)
    (r := fraction ++ (inner ++ (w₄ ++ (')' :: (outer ++ (w₅ ++ r)))))) hw₃.1 hw₃.2
    (hnext hfraction.1 fun c hc =>
      isFiller_eq_false_of_isInner (isInner_of_isFractionChar c (hfraction.2 c hc)))
  have hclosing {p : Char → Bool} (hp : ∀ c, isFiller c → p c = false) (hx : p ')' = false) :
      Stops p (w₄ ++ (')' :: (outer ++ (w₅ ++ r)))) := by
    apply hw₄.stops hp
    intro c hc
    cases hc
    apply hx
  have hlength := some1_exact (e := .noteLength)
    (r := inner ++ (w₄ ++ (')' :: (outer ++ (w₅ ++ r))))) hfraction.1 hfraction.2 (by
      obtain _ | ⟨d, inner⟩ := inner
      · apply hclosing (eq_false_of_isFiller isInner_of_isFractionChar) rfl
      · apply hnext (List.cons_ne_nil d inner)
        intro c hc
        rw [hinner c hc]
        rfl)
  have hdotted := takeWhile_exact (hdots hinner) (hclosing ne_dot_of_isFiller rfl)
  have hclose : literal [')'] (skip (w₄ ++ (')' :: (outer ++ (w₅ ++ r))))) =
      .ok (outer ++ (w₅ ++ r)) := by
    rw [hw₄.skip_append]
    apply literal_append [')']
  have hdotted' := takeWhile_exact (hdots houter) (hw₅.ends hr).stops_dot
  use skip (w₅ ++ r)
  constructor
  · rw [command_note, note, hskip]
    simp only [hsome, hgap, hlength, hdotted, hclose, hdotted', bind, Except.bind, pure,
      Except.pure]
  · rw [skip_skip, hw₅.skip_append]

/-- What spells a command is read as that command, unless it cuts a run of stars. -/
theorem readsAs_of_spells (h : Spells r p c) (hr : Ends r) (hstars : ¬CutsStars p r) :
  ReadsAs (p ++ r) c r
  := by
  cases h with
  | @comment w line e hw hline he =>
    have htext : [w, ['~'], line, e].flatten ++ r = w ++ '~' :: (line ++ (e ++ r)) := by
      simp
    rw [htext, readsAs_filler hw]
    use r
    rw [command_comment, comment, restOfLine_exact hline he]
    exact ⟨rfl, rfl⟩
  | @tempo w₁ w₂ number w₃ w₄ hw₁ hw₂ hnumber hw₃ hw₄ =>
    have hread := readsAs_tempo (r := r) hw₂ hnumber hw₃ hw₄
    rw [← readsAs_filler hw₁] at hread
    simpa using hread
  | @time w₁ w₂ fraction w₃ w₄ hw₁ hw₂ hfraction hw₃ hw₄ =>
    have hread := readsAs_time (r := r) hw₂ hfraction hw₃ hw₄
    rw [← readsAs_filler hw₁] at hread
    simpa using hread
  | @checkpoint w₁ stars w₂ hw₁ hrun hw₂ =>
    have htext : [w₁, stars, w₂].flatten = w₁ ++ (stars ++ w₂) := by
      simp
    have hcut : ¬CutsStars (stars ++ w₂) r := by
      rintro ⟨hlast, hhead⟩
      apply hstars ⟨_, hhead⟩
      have hne : stars ++ w₂ ≠ [] := List.append_ne_nil_of_left_ne_nil hrun.1 w₂
      rw [htext, List.getLast?_append_of_ne_nil _ hne, hlast]
    have hread := readsAs_checkpoint hrun hw₂ hcut
    rw [← readsAs_filler hw₁] at hread
    simpa using hread
  | @voice w₁ w₂ name w₃ hw₁ hw₂ hname hw₃ =>
    have hread := readsAs_voice hw₂ hname hw₃ hr
    rw [← readsAs_filler hw₁] at hread
    simpa using hread
  | @measure w₁ w₂ hw₁ hw₂ =>
    have htext : [w₁, ['|'], w₂].flatten ++ r = w₁ ++ '|' :: (w₂ ++ r) := by
      simp
    rw [htext, readsAs_filler hw₁]
    use skip (w₂ ++ r)
    rw [command_bar, skip_skip, hw₂.skip_append]
    exact ⟨rfl, rfl⟩
  | @reset w line e hw hline he =>
    have htext : [w, [';'], line, e].flatten ++ r = w ++ ';' :: (line ++ (e ++ r)) := by
      simp
    have hdropped : '\n' ∉ line.dropWhile isInlineFiller := by
      intro hmem
      apply hline ((List.dropWhile_suffix _).subset hmem)
    rw [htext, readsAs_filler hw]
    use r
    rw [command_reset, reset, dropWhile_inlineFiller_append he, restOfLine_exact hdropped he]
    exact ⟨rfl, rfl⟩
  | note hw₁ hw₂ hname hw₃ hfraction hinner hw₄ houter hw₅ =>
    have hread := readsAs_note hw₂ hname hw₃ hfraction hinner hw₄ houter hw₅ hr
    rw [← readsAs_filler hw₁] at hread
    simpa using hread

end Reading

section Parts

variable {t r : Text} {c : Command}

theorem eq_append_of_literal {l : Text} (h : literal l t = .ok r) :
  t = l ++ r
  := by
  rw [literal] at h
  split at h
  · rename_i hprefix
    cases h
    obtain ⟨u, rfl⟩ := List.isPrefixOf_iff_prefix.mp hprefix
    rw [List.drop_left]
  · cases h

theorem eq_append_of_some1 {p : Char → Bool} {e : Expectation} {b : Text}
    (h : some1 p e t = .ok (b, r)) :
  Run p b ∧ t = b ++ r
  := by
  obtain ⟨hne, rfl, rfl⟩ := eq_of_some1 h
  constructor
  · use hne
    intro c hc
    apply List.mem_takeWhile_imp hc
  · apply List.takeWhile_append_dropWhile.symm

/-- The rest of a line is a line with its line end or at the end of the text. -/
theorem eq_append_of_restOfLine (t : Text) :
  ∃ e, t = (restOfLine t).1 ++ (e ++ (restOfLine t).2) ∧ '\n' ∉ (restOfLine t).1 ∧
    (e = ['\n'] ∨ e = [] ∧ (restOfLine t).2 = [])
  := by
  have hline : '\n' ∉ (restOfLine t).1 := by
    intro hmem
    have hend := List.mem_takeWhile_imp hmem
    cases hend
  cases hrest : t.dropWhile (· != '\n') with
  | nil =>
    have htext : t = t.takeWhile (· != '\n') := by
      conv_lhs => rw [← List.takeWhile_append_dropWhile (p := (· != '\n')) (l := t), hrest]
      apply List.append_nil
    use []
    refine ⟨?_, hline, .inr ⟨rfl, ?_⟩⟩
    · rw [restOfLine, hrest]
      simpa using htext
    · rw [restOfLine, hrest]
      rfl
  | cons d u =>
    have hd := List.head?_dropWhile_not (· != '\n') t
    rw [hrest] at hd
    obtain rfl : d = '\n' := by simpa using hd
    use ['\n']
    refine ⟨?_, hline, .inl rfl⟩
    rw [restOfLine, hrest]
    conv_lhs => rw [← List.takeWhile_append_dropWhile (p := (· != '\n')) (l := t), hrest]
    rfl

/-- What stands behind an opening and before the rest spells the command together with the
opening. -/
def SpellsBehind (opening : Char) (t : Text) (c : Command) (r : Text) : Prop :=
  ∃ p, t = p ++ r ∧ ∀ w, Filler w → Spells r (w ++ opening :: p) c

theorem spellsBehind_remark {opening : Char} {c : Text → Command}
    (hspells : ∀ w line e r, Filler w → '\n' ∉ line → (e = ['\n'] ∨ e = [] ∧ r = []) →
      Spells r [w, [opening], line, e].flatten (c line)) (t : Text) :
  SpellsBehind opening t (c (restOfLine t).1) (restOfLine t).2
  := by
  obtain ⟨e, hsplit, hline, he⟩ := eq_append_of_restOfLine t
  use (restOfLine t).1 ++ e
  constructor
  · rw [List.append_assoc, ← hsplit]
  · intro w hw
    have h := hspells w _ e _ hw hline he
    simpa using h

theorem spellsBehind_tempo (h : tempo t = .ok (c, r)) :
  SpellsBehind '[' t c r
  := by
  obtain ⟨number, t₁, t₂, t₃, hnumber, hsuffix, hclose, rfl, rfl⟩ := tempo_eq_ok h
  obtain ⟨w₂, hw₂, ht⟩ := exists_filler t
  obtain ⟨w₃, hw₃, ht₂⟩ := exists_filler t₂
  obtain ⟨w₄, hw₄, ht₃⟩ := exists_filler t₃
  obtain ⟨hnumber, hskip⟩ := eq_append_of_some1 hnumber
  use [w₂, number, tempoSuffix, w₃, [']'], w₄].flatten
  constructor
  · simp only [List.flatten_cons, List.flatten_nil, List.append_nil, List.append_assoc]
    rw [← ht₃, ← eq_append_of_literal hclose, ← ht₂, ← eq_append_of_literal hsuffix, ← hskip, ← ht]
  · intro w hw
    apply Spells.tempo hw hw₂ hnumber hw₃ hw₄

theorem spellsBehind_time (h : time t = .ok (c, r)) :
  SpellsBehind '[' t c r
  := by
  obtain ⟨fraction, t₁, t₂, hfraction, hclose, rfl, rfl⟩ := time_eq_ok h
  obtain ⟨w₂, hw₂, ht⟩ := exists_filler t
  obtain ⟨w₃, hw₃, ht₁⟩ := exists_filler t₁
  obtain ⟨w₄, hw₄, ht₂⟩ := exists_filler t₂
  obtain ⟨hfraction, hskip⟩ := eq_append_of_some1 hfraction
  use [w₂, fraction, w₃, [']'], w₄].flatten
  constructor
  · simp only [List.flatten_cons, List.flatten_nil, List.append_nil, List.append_assoc]
    rw [← ht₂, ← eq_append_of_literal hclose, ← ht₁, ← hskip, ← ht]
  · intro w hw
    apply Spells.time hw hw₂ hfraction hw₃ hw₄

theorem spellsBehind_bracket (h : bracket t = .ok (c, r)) :
  SpellsBehind '[' t c r
  := by
  rw [bracket] at h
  split at h
  · rename_i htempo
    cases h
    apply spellsBehind_tempo htempo
  · split at h
    · rename_i htime
      cases h
      apply spellsBehind_time htime
    · cases h

theorem spellsBehind_checkpoint (t : Text) :
  SpellsBehind '*' t ⟨.checkpoint, '*' :: t.takeWhile (· == '*')⟩ (skip (t.dropWhile (· == '*')))
  := by
  obtain ⟨w₂, hw₂, ht⟩ := exists_filler (t.dropWhile (· == '*'))
  use t.takeWhile (· == '*') ++ w₂
  constructor
  · rw [List.append_assoc, ← ht, List.takeWhile_append_dropWhile]
  · intro w hw
    have hstars : Run (· == '*') ('*' :: t.takeWhile (· == '*')) := by
      use List.cons_ne_nil _ _
      rw [List.forall_mem_cons]
      use rfl
      intro c hc
      apply List.mem_takeWhile_imp hc
    have h : Spells (skip (t.dropWhile (· == '*'))) _ _ := Spells.checkpoint hw hstars hw₂
    simpa using h

theorem spellsBehind_voice (h : voice t = .ok (c, r)) :
  SpellsBehind '%' t c r
  := by
  obtain ⟨name, t₁, hname, rfl, rfl⟩ := voice_eq_ok h
  obtain ⟨w₂, hw₂, ht⟩ := exists_filler t
  obtain ⟨w₃, hw₃, ht₁⟩ := exists_filler t₁
  obtain ⟨hname, hskip⟩ := eq_append_of_some1 hname
  use [w₂, name, w₃].flatten
  constructor
  · simp only [List.flatten_cons, List.flatten_nil, List.append_nil, List.append_assoc]
    rw [← ht₁, ← hskip, ← ht]
  · intro w hw
    apply Spells.voice hw hw₂ hname hw₃

theorem spellsBehind_measure (t : Text) :
  SpellsBehind '|' t ⟨.measure, ['|']⟩ (skip t)
  := by
  obtain ⟨w₂, hw₂, ht⟩ := exists_filler t
  use w₂, ht
  intro w hw
  have h : Spells (skip t) _ _ := Spells.measure hw hw₂
  simpa using h

/-- The filler of a reset may be skipped in its line as well as in front of it. -/
theorem reset_eq (t : Text) :
  reset t = (⟨.reset, trim ((restOfLine t).1.dropWhile isInlineFiller)⟩, (restOfLine t).2)
  := by
  obtain ⟨e, hsplit, hline, he⟩ := eq_append_of_restOfLine t
  have hdropped : '\n' ∉ (restOfLine t).1.dropWhile isInlineFiller := by
    intro hmem
    apply hline ((List.dropWhile_suffix _).subset hmem)
  have hrest : restOfLine (t.dropWhile isInlineFiller) =
      ((restOfLine t).1.dropWhile isInlineFiller, (restOfLine t).2) := by
    rw [congrArg (List.dropWhile isInlineFiller) hsplit, dropWhile_inlineFiller_append he,
      restOfLine_exact hdropped he]
  rw [reset, hrest]

theorem spellsBehind_reset (t : Text) :
  SpellsBehind ';' t (reset t).1 (reset t).2
  := by
  rw [reset_eq]
  apply spellsBehind_remark (c := fun line => ⟨.reset, trim (line.dropWhile isInlineFiller)⟩)
  intro w line e r hw hline he
  apply Spells.reset hw hline he

theorem eq_plus_of_mem_takeWhile (t : Text) :
  ∀ c ∈ t.takeWhile (· == dot), c = '+'
  := by
  intro c hc
  have hdot := List.mem_takeWhile_imp hc
  apply beq_iff_eq.mp hdot

theorem spellsBehind_note (h : note t = .ok (c, r)) :
  SpellsBehind '(' t c r
  := by
  obtain ⟨name, t₁, gap, t₂, length, t₃, t₄, hname, hgap, hlength, hclose, rfl, rfl⟩ := note_eq_ok h
  obtain ⟨w₂, hw₂, ht⟩ := exists_filler t
  obtain ⟨w₄, hw₄, ht₃⟩ := exists_filler (t₃.dropWhile (· == dot))
  obtain ⟨w₅, hw₅, ht₄⟩ := exists_filler (t₄.dropWhile (· == dot))
  obtain ⟨hname, hskip⟩ := eq_append_of_some1 hname
  obtain ⟨hgap, hgapped⟩ := eq_append_of_some1 hgap
  obtain ⟨hlength, hmeasured⟩ := eq_append_of_some1 hlength
  use [w₂, name, gap, length, t₃.takeWhile (· == dot), w₄, [')'], t₄.takeWhile (· == dot),
    w₅].flatten
  constructor
  · simp only [List.flatten_cons, List.flatten_nil, List.append_nil, List.append_assoc]
    rw [← ht₄, List.takeWhile_append_dropWhile, ← eq_append_of_literal hclose, ← ht₃,
      List.takeWhile_append_dropWhile, ← hmeasured, ← hgapped, ← hskip, ← ht]
  · intro w hw
    apply Spells.note hw hw₂ hname hgap hlength (eq_plus_of_mem_takeWhile t₃) hw₄
      (eq_plus_of_mem_takeWhile t₄) hw₅

/-- A command that is read is spelled by what has been read. -/
theorem spells_of_command (h : command t = .ok (c, r)) :
  ∃ p, t = p ++ r ∧ Spells r p c
  := by
  obtain ⟨w, hw, ht⟩ := exists_filler t
  have hopening {opening : Char} {u : Text} (hu : skip t = opening :: u)
      (hspells : SpellsBehind opening u c r) : ∃ p, t = p ++ r ∧ Spells r p c := by
    obtain ⟨p, rfl, hp⟩ := hspells
    use w ++ opening :: p
    rw [hu] at ht
    exact ⟨by simpa using ht, hp w hw⟩
  rw [command] at h
  split at h
  · rename_i u hu
    cases h
    apply hopening hu
    apply spellsBehind_remark (c := fun line => ⟨.comment, trim line⟩)
    intro w line e r hw hline he
    apply Spells.comment hw hline he
  · rename_i u hu
    apply hopening hu (spellsBehind_bracket h)
  · rename_i u hu
    cases h
    apply hopening hu (spellsBehind_checkpoint u)
  · rename_i u hu
    apply hopening hu (spellsBehind_voice h)
  · rename_i u hu
    cases h
    apply hopening hu (spellsBehind_measure u)
  · rename_i u hu
    cases h
    apply hopening hu (spellsBehind_reset u)
  · rename_i u hu
    apply hopening hu (spellsBehind_note h)
  · cases h

/-- No command that is read cuts a run of stars. -/
theorem not_cutsStars_of_command {p : Text} (hp : Spells r p c)
    (h : command (p ++ r) = .ok (c, r)) :
  ¬CutsStars p r
  := by
  rintro ⟨hlast, hhead⟩
  obtain _ | ⟨d, u⟩ := r
  · cases hhead
  obtain rfl := Option.some.inj hhead
  obtain ⟨w, stars, hw, hstars, rfl, rfl⟩ := hp.stars_of_last hlast (List.cons_ne_nil _ _)
  obtain _ | ⟨x, stars⟩ := stars
  · cases hstars.1 rfl
  obtain ⟨hx, hrun⟩ := List.forall_mem_cons.mp hstars.2
  obtain rfl : x = '*' := eq_of_beq hx
  -- The reader takes all stars, one more than the phrase has.
  rw [List.append_assoc, command_congr (hw.skip_append _), List.cons_append, command_stars,
    checkpoint, List.takeWhile_append_of_pos hrun] at h
  simp at h

end Parts

section Score

variable {t : Text} {cs : List Command} {ps : List Phrase}

/-- A text that can be read has phrases that spell the commands, and none of them cuts a run of
stars. -/
theorem spelled_of_commands (h : commands t = .ok cs) :
  ∃ ps, Spelled ps t ∧ WholeStars ps ∧ ps.map Phrase.command = cs
  := by
  induction cs generalizing t with
  | nil =>
    obtain ⟨hskip, -⟩ | ⟨c, r, ds, -, -, hcs⟩ := commands_eq_ok h
    · exact ⟨[], .filler (List.dropWhile_eq_nil_iff.mp hskip), .nil, rfl⟩
    · cases hcs
  | cons c cs ih =>
    obtain ⟨-, hcs⟩ | ⟨d, r, ds, hcommand, hrest, hcs⟩ := commands_eq_ok h
    · cases hcs
    · cases hcs
      obtain ⟨p, rfl, hp⟩ := spells_of_command hcommand
      obtain ⟨ps, hps, hwhole, rfl⟩ := ih hrest
      refine ⟨⟨p, c⟩ :: ps, .phrase hp hps, ?_, rfl⟩
      apply List.isChain_cons.mpr ⟨_, hwhole⟩
      intro q hq hcut
      apply not_cutsStars_of_command hp hcommand ((hps.cutsStars_iff p).mpr ⟨q, hq, hcut⟩)

/-- Stars in front of a text that can be read can be read with it. -/
theorem commands_stars_ok {stars : Text} (hstars : ∀ c ∈ stars, c = '*') (h : commands t = .ok cs) :
  ∃ ds, commands (stars ++ t) = .ok ds
  := by
  induction stars with
  | nil => exact ⟨cs, h⟩
  | cons c stars ih =>
    obtain ⟨hc, hrest⟩ := List.forall_mem_cons.mp hstars
    obtain rfl := hc
    obtain ⟨ds, hds⟩ := ih hrest
    by_cases hhead : (stars ++ t).head? = some '*'
    · obtain ⟨u, hu⟩ := List.head?_eq_some_iff.mp hhead
      rw [List.cons_append, hu, commands_star_star, ← hu, hds]
      exact ⟨_, rfl⟩
    · rw [List.cons_append, commands_star_of_not_star, hds]
      · exact ⟨_, rfl⟩
      · rintro d hd rfl
        apply hhead hd

theorem commands_of_readsAs {c : Command} {u : Text} (h : ReadsAs u c t) :
  commands u = (commands t).map (c :: ·)
  := by
  obtain ⟨r, hcommand, hskip⟩ := h
  rw [commands_of_ok hcommand, commands_congr hskip]

/-- A score can be read, and what is read are the commands of its phrases if these do not cut a run
of stars. -/
theorem commands_of_spelled (h : Spelled ps t) :
  (∃ cs, commands t = .ok cs) ∧ (WholeStars ps → commands t = .ok (ps.map Phrase.command))
  := by
  induction h with
  | filler hw =>
    have hread := commands_nil hw.skip_eq_nil
    exact ⟨⟨[], hread⟩, fun _ => hread⟩
  | @phrase p c ps t hp h ih =>
    obtain ⟨⟨cs, hcs⟩, hwhole⟩ := ih
    by_cases hcut : CutsStars p t
    · obtain ⟨w, stars, hw, hstars, rfl, -⟩ := hp.stars_of_last hcut.1 (by
        rintro rfl
        cases hcut.2)
      obtain ⟨ds, hds⟩ := commands_stars_ok (fun c hc => eq_of_beq (hstars.2 c hc)) hcs
      rw [List.append_assoc, commands_congr (hw.skip_append _)]
      use ⟨ds, hds⟩
      intro hps
      obtain ⟨q, hq, hcut⟩ := (h.cutsStars_iff _).mp hcut
      cases (List.isChain_cons.mp hps).1 q hq hcut
    · have hread := commands_of_readsAs (readsAs_of_spells hp h.ends hcut)
      rw [hread, hcs]
      use ⟨_, rfl⟩
      intro hps
      rw [← hcs, hwhole hps.tail]
      rfl

theorem read_eq_ok :
  read t = .ok cs ↔ commands t = .ok cs
  := by
  rw [read]
  cases commands t with
  | ok cs => simp
  | error o => simp

theorem read_eq_error {e : ParseError} (h : read t = .error e) :
  ∃ o, commands t = .error o ∧ e = .ofObstacle t o
  := by
  rw [read] at h
  cases ht : commands t with
  | ok cs =>
    rw [ht] at h
    cases h
  | error o =>
    rw [ht] at h
    exact ⟨o, rfl, (Except.error.inj h).symm⟩

/-- The reader accepts exactly the texts that are put together from phrases, and returns the
commands of the phrases that do not cut a run of stars, which are the same in every such way to put
the text together. -/
theorem read_iff_spelled (t : Text) :
  ((∃ cs, read t = .ok cs) ↔ ∃ ps, Spelled ps t) ∧
    (∀ cs, read t = .ok cs ↔ ∃ ps, Spelled ps t ∧ WholeStars ps ∧ ps.map Phrase.command = cs) ∧
    (∀ ps qs, Spelled ps t → WholeStars ps → Spelled qs t → WholeStars qs →
      ps.map Phrase.command = qs.map Phrase.command) ∧
    ((∃ e, read t = .error e) ↔ ¬∃ ps, Spelled ps t)
  := by
  have hread {ps : List Phrase} (h : Spelled ps t) (hwhole : WholeStars ps) :
      read t = .ok (ps.map Phrase.command) :=
    read_eq_ok.mpr ((commands_of_spelled h).2 hwhole)
  have haccepts : (∃ cs, read t = .ok cs) ↔ ∃ ps, Spelled ps t := by
    constructor
    · rintro ⟨cs, hcs⟩
      obtain ⟨ps, hps, -⟩ := spelled_of_commands (read_eq_ok.mp hcs)
      exact ⟨ps, hps⟩
    · rintro ⟨ps, hps⟩
      obtain ⟨cs, hcs⟩ := (commands_of_spelled hps).1
      exact ⟨cs, read_eq_ok.mpr hcs⟩
  refine ⟨haccepts, ?_, ?_, ?_⟩
  · intro cs
    constructor
    · intro hcs
      apply spelled_of_commands (read_eq_ok.mp hcs)
    · rintro ⟨ps, hps, hwhole, rfl⟩
      apply hread hps hwhole
  · intro ps qs hps hps' hqs hqs'
    apply Except.ok.inj
    rw [← hread hps hps', hread hqs hqs']
  · rw [← haccepts]
    cases read t with
    | ok cs => simp
    | error e => simp

end Score

end Tunescript.Score
