import Tunescript.Proofs.Layout.Written
import Tunescript.Proofs.Score.Acceptance
import Tunescript.Proofs.Score.Lengths

/-!
# Reading the text of a command

The text of a command whose noun has the shape that its verb asks for (`Command.Legible`) spells
that command (`spells_core`), so that it is read again, whatever follows it without going on with
it.  A noun of another shape makes the text unreadable (`commands_core_of_not_legible`).
-/

namespace Tunescript

open Score
open Text (Trimmed isBlank)

namespace Command

/-- The noun has the shape that its verb asks for where it is written. -/
def Legible (c : Command) : Prop :=
  match c.verb with
  | .tempo => ∀ x ∈ c.noun, x.isDigit
  | .time => ∀ x ∈ c.noun, isFractionChar x
  | .voice => ∀ x ∈ c.noun, isNameChar x
  | .reset => c.noun.head? ≠ some '-'
  | _ => True

end Command

namespace Score

/-- The command that the text of a command is read as. -/
def reread (c : Command) : Command :=
  match c.verb with
  | .measure => ⟨.measure, ['|']⟩
  | .checkpoint => oneStar
  | _ => c

end Score

namespace Layout

variable {t : Text}

theorem skip_fraction {noun r : Text} (hne : noun ≠ []) (hnoun : ∀ x ∈ noun, isFractionChar x) :
  skip (' ' :: (noun ++ r)) = noun ++ r
  := by
  rw [skip_cons_of_filler rfl]
  apply skip_of_inner hne
  intro c hc
  apply isInner_of_isFractionChar c (hnoun c hc)

/-- The text of a legible command that is no remark spells the command that it is read as. -/
theorem spells_core {c : Command} (hshaped : c.Shaped) (hlegible : c.Legible)
    (hremark : c.verb.isRemark = false) (rest : Text) :
  Spells rest (core c) (reread c)
  := by
  obtain ⟨verb, noun⟩ := c
  have hnone : Filler [] := List.forall_mem_nil _
  have hspace : Filler [' '] := List.forall_mem_singleton.mpr rfl
  have hne {noun : Text} (h : isLengthText noun) : noun ≠ [] := by
    rintro rfl
    cases h
  cases verb with
  | note name =>
    obtain ⟨hverb, hname, hchars, hlength⟩ := hshaped
    obtain ⟨length, dots, rfl, hne', hlength, hdots⟩ := exists_of_isLengthText hlength
    obtain ⟨hundotted, hreplicate⟩ := NoteLength.undotted_append hlength hdots
    have hinner : ∀ c ∈ ([] : Text), c = '+' := nofun
    have h : Spells rest _ _ := Spells.note hnone hnone ⟨hname, hchars⟩
      ⟨List.cons_ne_nil _ _, hspace⟩ ⟨hne', hlength⟩ hinner hnone hdots hnone
    have htoken : token name (length ++ dots) = '(' :: name ++ ' ' :: length ++ [')'] ++ dots := by
      rw [token, hundotted, hreplicate]
    have hcore : core ⟨.note name, length ++ dots⟩ = token name (length ++ dots) := rfl
    rw [hcore, htoken]
    simpa [hverb, reread] using h
  | voice =>
    have hnoun : noun ≠ [] := by
      obtain ⟨hnoun, -⟩ | hlength := hshaped
      · apply hnoun
      · apply hne hlength
    have h : Spells rest _ _ := Spells.voice hnone hspace ⟨hnoun, hlegible⟩ hnone
    simpa [core, reread] using h
  | tempo =>
    have h : Spells rest _ _ :=
      Spells.tempo hnone hspace ⟨hne hshaped, hlegible⟩ hspace hnone
    simpa [core, reread] using h
  | time =>
    have h : Spells rest _ _ :=
      Spells.time hnone hspace ⟨hne hshaped, hlegible⟩ hspace hnone
    simpa [core, reread] using h
  | measure => apply Spells.measure hnone hnone
  | checkpoint =>
    have hstars : Run (· == '*') ['*'] :=
      ⟨List.cons_ne_nil _ _, List.forall_mem_singleton.mpr (beq_self_eq_true '*')⟩
    apply Spells.checkpoint hnone hstars hnone
  | _ => cases hremark

theorem verb_reread (c : Command) :
  (reread c).verb = c.verb
  := by
  rw [reread]
  split
  · rename_i h
    rw [h]
  · rename_i h
    rw [h]
    rfl
  · rfl

/-- In front of a text that cannot go on it, a legible command that is no remark is read first. -/
theorem commands_core {c : Command} (hshaped : c.Shaped) (hlegible : c.Legible)
    (hremark : c.verb.isRemark = false) (hcheckpoint : c.verb ≠ .checkpoint) (ht : Ends t) :
  commands (core c ++ t) = (commands t).map (reread c :: ·)
  := by
  have hspells := spells_core hshaped hlegible hremark t
  apply commands_of_readsAs
  apply readsAs_of_spells hspells ht
  rintro ⟨hlast, hhead⟩
  obtain ⟨w, stars, -, -, -, hstars⟩ := hspells.stars_of_last hlast (by
    rintro rfl
    cases hhead)
  apply hcheckpoint
  rw [← verb_reread, hstars]

section Illegible

theorem commands_of_bracket_error {o : Obstacle} (h : bracket t = .error o) :
  commands ('[' :: t) = .error o
  := by
  rw [← command_bracket] at h
  rw [commands_of_error h]
  rfl

theorem bracket_eq_error {t : Text} (htempo : ∃ o, tempo t = .error o)
    (htime : ∃ o, time t = .error o) :
  ∃ o, bracket t = .error o
  := by
  obtain ⟨o, ho⟩ := htempo
  obtain ⟨o', ho'⟩ := htime
  rw [bracket, ho, ho']
  exact ⟨_, rfl⟩

/-- What closes a time signature stands behind its fraction. -/
theorem time_fails {c : Char} {u : Text} (h : (skip t).dropWhile isFractionChar = c :: u)
    (hfiller : isFiller c = false) (hc : c ≠ ']') :
  ∃ o, time t = .error o
  := by
  cases htime : time t with
  | error o => exact ⟨o, rfl⟩
  | ok p =>
    obtain ⟨fraction, t₁, t₂, hfraction, hclose, -⟩ := time_eq_ok htime
    obtain ⟨-, -, rfl⟩ := eq_of_some1 hfraction
    rw [h, skip_cons_of_not_filler hfiller, literal] at hclose
    split at hclose
    · rename_i hprefix
      obtain ⟨v, hv⟩ := List.isPrefixOf_iff_prefix.mp hprefix
      cases hv
      cases hc rfl
    · cases hclose

theorem dropWhile_length {length dots : Text} (hlength : ∀ c ∈ length, isFractionChar c)
    (hdots : ∀ c ∈ dots, c = dot) {c : Char} {r : Text} (hc : isFractionChar c = false) :
  (length ++ dots ++ c :: r).dropWhile isFractionChar = dots ++ c :: r
  := by
  rw [List.append_assoc]
  apply (takeWhile_exact hlength _).2
  intro d hd
  cases dots with
  | nil =>
    cases hd
    apply hc
  | cons e dots =>
    cases hd
    rw [hdots d List.mem_cons_self]
    rfl

theorem skip_length {noun r : Text} (h : isLengthText noun) :
  skip (' ' :: (noun ++ r)) = noun ++ r
  := by
  obtain ⟨length, dots, rfl, hne, hlength, -⟩ := exists_of_isLengthText h
  rw [List.append_assoc]
  apply skip_fraction hne hlength

/-- A time signature with dots cannot be read. -/
theorem commands_time_of_not_fraction {noun : Text} (h : isLengthText noun)
    (hnoun : ¬∀ x ∈ noun, isFractionChar x) (t : Text) :
  ∃ o, commands ('[' :: ' ' :: (noun ++ ' ' :: t)) = .error o
  := by
  obtain ⟨length, dots, hlength⟩ := exists_of_isLengthText h
  obtain ⟨rfl, hne, hlength, hdots⟩ := hlength
  cases dots with
  | nil =>
    rw [List.append_nil] at hnoun
    cases hnoun hlength
  | cons d dots =>
    have hd := hdots d List.mem_cons_self
    have hdrop : (skip (' ' :: (length ++ d :: dots ++ ' ' :: t))).dropWhile isFractionChar =
        d :: (dots ++ ' ' :: t) := by
      rw [skip_length h, dropWhile_length hlength hdots rfl]
      rfl
    have hfails := bracket_eq_error (tempo_fails hdrop (by rw [hd]; decide))
      (time_fails hdrop (by rw [hd]; rfl) (by rw [hd]; decide))
    obtain ⟨o, ho⟩ := hfails
    exact ⟨o, commands_of_bracket_error ho⟩

/-- A text is known up to the first place of a character. -/
theorem eq_of_append_cons {x : Char} {a b u v : Text} (ha : x ∉ a) (hb : x ∉ b)
    (h : a ++ x :: u = b ++ x :: v) :
  a = b
  := by
  have hall {a : Text} (ha : x ∉ a) : ∀ c ∈ a, (c != x) = true := by
    intro c hc
    apply bne_iff_ne.mpr
    rintro rfl
    apply ha hc
  have hstop {u : Text} : ∀ c, (x :: u).head? = some c → (c != x) = false := by
    intro c hc
    cases hc
    apply bne_self_eq_false
  rw [← (takeWhile_exact (hall ha) (hstop (u := u))).1, h,
    (takeWhile_exact (hall hb) (hstop (u := v))).1]

/-- Between the digits of a tempo and its suffix there is nothing. -/
theorem digits_of_tempo {noun u : Text} {p : Command × Text} (hnoun : '_' ∉ noun)
    (hskip : skip t = noun ++ '_' :: u) (h : tempo t = .ok p) :
  ∀ x ∈ noun, x.isDigit
  := by
  obtain ⟨number, t₁, t₂, t₃, hnumber, hsuffix, -⟩ := tempo_eq_ok h
  obtain ⟨-, rfl, rfl⟩ := eq_of_some1 hnumber
  rw [literal] at hsuffix
  split at hsuffix
  · rename_i hprefix
    obtain ⟨v, hv⟩ := List.isPrefixOf_iff_prefix.mp hprefix
    have hdigits : '_' ∉ (skip t).takeWhile Char.isDigit := by
      intro hmem
      cases List.mem_takeWhile_imp hmem
    have hsplit : noun ++ '_' :: u = (skip t).takeWhile Char.isDigit ++ '_' ::
        ("bpm".toList ++ v) :=
      calc
        noun ++ '_' :: u = skip t := hskip.symm
        _ = (skip t).takeWhile Char.isDigit ++ (skip t).dropWhile Char.isDigit :=
          List.takeWhile_append_dropWhile.symm
        _ = (skip t).takeWhile Char.isDigit ++ '_' :: ("bpm".toList ++ v) := by
          rw [← hv]
          rfl
    rw [eq_of_append_cons hnoun hdigits hsplit]
    intro x hx
    apply List.mem_takeWhile_imp hx
  · cases hsuffix

/-- A tempo with other characters than digits cannot be read. -/
theorem commands_tempo_of_not_digit {noun : Text} (h : isLengthText noun)
    (hnoun : ¬∀ x ∈ noun, x.isDigit) (t : Text) :
  ∃ o, commands ('[' :: ' ' :: (noun ++ '_' :: t)) = .error o
  := by
  have hskip := skip_length (r := '_' :: t) h
  have htempo : ∃ o, tempo (' ' :: (noun ++ '_' :: t)) = .error o := by
    cases htempo : tempo (' ' :: (noun ++ '_' :: t)) with
    | error o => exact ⟨o, rfl⟩
    | ok p =>
      apply absurd _ hnoun
      apply digits_of_tempo _ hskip htempo
      intro hmem
      obtain hfraction | hdot := isFractionChar_of_isLengthText h '_' hmem
      · cases hfraction
      · cases hdot
  obtain ⟨length, dots, rfl, hne, hlength, hdots⟩ := exists_of_isLengthText h
  have htime : ∃ o, time (' ' :: (length ++ dots ++ '_' :: t)) = .error o := by
    have hdrop := dropWhile_length (c := '_') (r := t) hlength hdots rfl
    rw [← hskip] at hdrop
    cases dots with
    | nil => apply time_fails hdrop rfl (by decide)
    | cons d dots =>
      have hd := hdots d List.mem_cons_self
      apply time_fails hdrop (by rw [hd]; rfl) (by rw [hd]; decide)
  obtain ⟨o, ho⟩ := bracket_eq_error htempo htime
  exact ⟨o, commands_of_bracket_error ho⟩

/-- No command starts with a sign of a fraction or a dot. -/
theorem commands_of_sign {c : Char} (hc : isFractionChar c ∨ c = dot) (hname : isNameChar c = false)
    (t : Text) :
  ∃ o, commands (c :: t) = .error o
  := by
  have hsign : c = '/' ∨ c = dot := by
    obtain hfraction | hdot := hc
    · rw [isFractionChar, Bool.or_eq_true] at hfraction
      obtain hdigit | hslash := hfraction
      · simp [isNameChar, Char.isAlphanum, hdigit] at hname
      · exact .inl (beq_iff_eq.mp hslash)
    · exact .inr hdot
  obtain rfl | rfl := hsign
  · have hcommand : command ('/' :: t) = .error ⟨'/' :: t, openings⟩ := rfl
    exact ⟨_, commands_of_error hcommand⟩
  · have hcommand : command (dot :: t) = .error ⟨dot :: t, openings⟩ := rfl
    exact ⟨_, commands_of_error hcommand⟩

/-- A voice with other characters than those of a name cannot be read. -/
theorem commands_voice_of_not_name {noun : Text} (h : isLengthText noun)
    (hnoun : ¬∀ x ∈ noun, isNameChar x) (t : Text) :
  ∃ o, commands ('%' :: ' ' :: (noun ++ t)) = .error o
  := by
  cases hrest : noun.dropWhile isNameChar with
  | nil => cases hnoun (List.dropWhile_eq_nil_iff.mp hrest)
  | cons d r =>
    have hd : isNameChar d = false := by
      have hhead := List.head?_dropWhile_not isNameChar noun
      rw [hrest] at hhead
      simpa using hhead
    have hmem : d ∈ noun := by
      apply (List.dropWhile_suffix isNameChar).subset
      rw [hrest]
      apply List.mem_cons_self
    have hcommand := command_voice (' ' :: (noun ++ t))
    have hsplit : noun ++ t = noun.takeWhile isNameChar ++ (d :: (r ++ t)) := by
      rw [← List.cons_append, ← hrest, ← List.append_assoc, List.takeWhile_append_dropWhile]
    rw [voice, skip_length h, hsplit] at hcommand
    rw [hsplit]
    by_cases hname : noun.takeWhile isNameChar = []
    · rw [hname, List.nil_append] at hcommand ⊢
      have hsome : some1 isNameChar .voiceName (d :: (r ++ t)) =
          .error ⟨d :: (r ++ t), [.voiceName]⟩ := by
        simp [some1, hd]
      rw [hsome] at hcommand
      exact ⟨_, commands_of_error hcommand⟩
    · have hsome := some1_exact (e := .voiceName) (r := d :: (r ++ t)) hname
        (fun c hc => List.mem_takeWhile_imp hc) (by
          intro c hc
          cases hc
          apply hd)
      obtain ⟨o, ho⟩ := commands_of_sign (isFractionChar_of_isLengthText h d hmem) hd (r ++ t)
      rw [hsome] at hcommand
      use o
      rw [commands_of_ok hcommand, commands_congr (skip_skip _), ho]
      rfl

/-- The text of a command that is neither legible nor a reset cannot be read. -/
theorem commands_core_of_not_legible {c : Command} (hshaped : c.Shaped) (hlegible : ¬c.Legible)
    (hreset : c.verb ≠ .reset) (t : Text) :
  ∃ o, commands (core c ++ t) = .error o
  := by
  obtain ⟨verb, noun⟩ := c
  cases verb with
  | tempo =>
    have htempo := commands_tempo_of_not_digit hshaped hlegible ("bpm ]".toList ++ t)
    simpa [core] using htempo
  | time =>
    have htime := commands_time_of_not_fraction hshaped hlegible (']' :: t)
    simpa [core] using htime
  | voice =>
    obtain ⟨-, hname⟩ | hlength := hshaped
    · cases hlegible hname
    · apply commands_voice_of_not_name hlength hlegible
  | reset => cases hreset rfl
  | note name => cases hlegible trivial
  | measure => cases hlegible trivial
  | comment => cases hlegible trivial
  | checkpoint => cases hlegible trivial

end Illegible

end Layout

end Tunescript
