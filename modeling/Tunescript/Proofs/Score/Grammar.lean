import Mathlib.Data.List.Chain
import Mathlib.Tactic.Common
import Tunescript.Proofs.Score.Exact

/-!
# The grammar of scores

A score is put together from the texts of its commands, with filler behind the last of them
(`Spelled`); which texts spell a command is told by one rule for each verb (`Spells`).  Only stars
can be split between the phrases of a score in several ways: where one ends with a star, it is a
checkpoint without filler behind it (`Spells.stars_of_last`).
-/

namespace Tunescript.Score

open Text (trim)

/-- The text only fills space. -/
def Filler (t : Text) : Prop := ∀ c ∈ t, isFiller c

/-- The text consists of characters of a class, at least one. -/
def Run (p : Char → Bool) (t : Text) : Prop := t ≠ [] ∧ ∀ c ∈ t, p c

/-- The text spells the command where the given rest of a score follows it. -/
inductive Spells (rest : Text) : Text → Command → Prop
  /-- A comment has everything behind its `~`, including the next line end or up to the end. -/
  | comment {w line e : Text} (hw : Filler w) (hline : '\n' ∉ line)
    (he : e = ['\n'] ∨ e = [] ∧ rest = []) :
    Spells rest [w, ['~'], line, e].flatten ⟨.comment, trim line⟩
  /-- A tempo is a number with the suffix of a tempo, in brackets. -/
  | tempo {w₁ w₂ number w₃ w₄ : Text} (hw₁ : Filler w₁) (hw₂ : Filler w₂)
    (hnumber : Run Char.isDigit number) (hw₃ : Filler w₃) (hw₄ : Filler w₄) :
    Spells rest [w₁, ['['], w₂, number, "_bpm".toList, w₃, [']'], w₄].flatten ⟨.tempo, number⟩
  /-- A time signature is a fraction in brackets. -/
  | time {w₁ w₂ fraction w₃ w₄ : Text} (hw₁ : Filler w₁) (hw₂ : Filler w₂)
    (hfraction : Run isFractionChar fraction) (hw₃ : Filler w₃) (hw₄ : Filler w₄) :
    Spells rest [w₁, ['['], w₂, fraction, w₃, [']'], w₄].flatten ⟨.time, fraction⟩
  /-- A checkpoint is a run of stars. -/
  | checkpoint {w₁ stars w₂ : Text} (hw₁ : Filler w₁) (hstars : Run (· == '*') stars)
    (hw₂ : Filler w₂) :
    Spells rest [w₁, stars, w₂].flatten ⟨.checkpoint, stars⟩
  /-- A voice is a name behind a `%`. -/
  | voice {w₁ w₂ name w₃ : Text} (hw₁ : Filler w₁) (hw₂ : Filler w₂)
    (hname : Run isNameChar name) (hw₃ : Filler w₃) :
    Spells rest [w₁, ['%'], w₂, name, w₃].flatten ⟨.voice, name⟩
  /-- A measure is a bar. -/
  | measure {w₁ w₂ : Text} (hw₁ : Filler w₁) (hw₂ : Filler w₂) :
    Spells rest [w₁, ['|'], w₂].flatten ⟨.measure, ['|']⟩
  /-- A reset has everything behind its `;` as a comment has; dashes in front of the noun are no
  part of it. -/
  | reset {w line e : Text} (hw : Filler w) (hline : '\n' ∉ line)
    (he : e = ['\n'] ∨ e = [] ∧ rest = []) :
    Spells rest [w, [';'], line, e].flatten ⟨.reset, trim (line.dropWhile isInlineFiller)⟩
  /-- A note is a name and a fraction in parentheses, with dots in front of the closing one and
  behind it. -/
  | note {w₁ w₂ name w₃ fraction inner w₄ outer w₅ : Text} (hw₁ : Filler w₁) (hw₂ : Filler w₂)
    (hname : Run isNameChar name) (hw₃ : Run isFiller w₃) (hfraction : Run isFractionChar fraction)
    (hinner : ∀ c ∈ inner, c = '+') (hw₄ : Filler w₄) (houter : ∀ c ∈ outer, c = '+')
    (hw₅ : Filler w₅) :
    Spells rest [w₁, ['('], w₂, name, w₃, fraction, inner, w₄, [')'], outer, w₅].flatten
      ⟨Verb.ofWord name, fraction ++ inner ++ outer⟩

/-- A part of a score with the command that it spells. -/
structure Phrase where
  /-- The part of the score. -/
  text : Text
  /-- The command. -/
  command : Command

/-- The text is put together from the phrases, with filler behind them. -/
inductive Spelled : List Phrase → Text → Prop
  /-- Filler only. -/
  | filler {w : Text} (hw : Filler w) : Spelled [] w
  /-- A phrase in front of others. -/
  | phrase {p : Text} {c : Command} {ps : List Phrase} {t : Text} (hp : Spells t p c)
    (h : Spelled ps t) : Spelled (⟨p, c⟩ :: ps) (p ++ t)

/-- A run of stars goes on from one text into the next. -/
def CutsStars (t u : Text) : Prop := t.getLast? = some '*' ∧ u.head? = some '*'

/-- Every run of stars lies in one phrase. -/
def WholeStars (ps : List Phrase) : Prop := ps.IsChain fun p q => ¬CutsStars p.text q.text

section Filler

variable {w t : Text}

theorem Filler.skip_eq_nil (hw : Filler w) :
  skip w = []
  := List.dropWhile_eq_nil_iff.mpr hw

theorem Filler.skip_append (hw : Filler w) (t : Text) :
  skip (w ++ t) = skip t
  := skip_append_of_nil hw.skip_eq_nil t

theorem filler_nil :
  Filler []
  := List.forall_mem_nil _

theorem filler_space :
  Filler [' ']
  := List.forall_mem_singleton.mpr rfl

theorem run_singleton {p : Char → Bool} {c : Char} (hc : p c) :
  Run p [c]
  := ⟨List.cons_ne_nil _ _, List.forall_mem_singleton.mpr hc⟩

theorem run_space :
  Run isFiller [' ']
  := run_singleton rfl

theorem dots_nil :
  ∀ c ∈ ([] : Text), c = '+'
  := List.forall_mem_nil _

/-- Behind the filler at the start of a text stands what is left when it is skipped. -/
theorem exists_filler (t : Text) :
  ∃ w, Filler w ∧ t = w ++ skip t
  := by
  use t.takeWhile isFiller
  constructor
  · intro c hc
    apply List.mem_takeWhile_imp hc
  · apply List.takeWhile_append_dropWhile.symm

theorem Filler.ends (hw : Filler w) (ht : Ends t) :
  Ends (w ++ t)
  := by
  obtain _ | ⟨d, w⟩ := w
  · apply ht
  · intro c hc
    obtain rfl := Option.some.inj hc
    have hfiller := hw _ List.mem_cons_self
    use isInner_eq_false_of_isFiller hfiller
    rintro rfl
    cases hfiller

/-- Filler has none of the characters that are not filler. -/
theorem Filler.not_mem (hw : Filler w) {c : Char} (hc : isFiller c = false) :
  c ∉ w
  := by
  intro hmem
  rw [hw c hmem] at hc
  cases hc

theorem Run.not_mem {p : Char → Bool} (ht : Run p t) {c : Char} (hc : p c = false) :
  c ∉ t
  := by
  intro hmem
  rw [ht.2 c hmem] at hc
  cases hc

/-- No other character stands among dots. -/
theorem not_mem_of_dots (ht : ∀ c ∈ t, c = '+') {c : Char} (hc : c ≠ '+') :
  c ∉ t
  := by
  intro hmem
  apply hc (ht c hmem)

/-- In front of a text that stops a class, filler stops it as well. -/
theorem Filler.stops (hw : Filler w) {p : Char → Bool} (hp : ∀ c, isFiller c → p c = false)
    (ht : Stops p t) :
  Stops p (w ++ t)
  := by
  obtain _ | ⟨d, w⟩ := w
  · apply ht
  · intro c hc
    obtain rfl := Option.some.inj hc
    apply hp _ (hw _ List.mem_cons_self)

theorem eq_false_of_isFiller {p : Char → Bool} (hp : ∀ c, p c → isInner c) (c : Char)
    (hc : isFiller c) :
  p c = false
  := by
  apply Bool.eq_false_iff.mpr
  intro hpc
  have hinner := hp c hpc
  rw [isInner_eq_false_of_isFiller hc] at hinner
  cases hinner

theorem ne_dot_of_isFiller (c : Char) (hc : isFiller c) :
  (c == dot) = false
  := by
  apply beq_eq_false_iff_ne.mpr
  rintro rfl
  cases hc

end Filler

section Phrases

variable {p r t : Text} {c : Command} {ps : List Phrase}

/-- A phrase starts with filler or with an opening. -/
theorem Spells.head (h : Spells r p c) :
  ∃ x u, p = x :: u ∧ (isFiller x ∨ x ∈ "~[*%|;(".toList)
  := by
  have hopening {w u : Text} {x : Char} (hw : Filler w) (hx : x ∈ "~[*%|;(".toList) :
      ∃ y v, w ++ x :: u = y :: v ∧ (isFiller y ∨ y ∈ "~[*%|;(".toList) := by
    obtain _ | ⟨y, w⟩ := w
    · exact ⟨x, u, rfl, .inr hx⟩
    · exact ⟨y, w ++ x :: u, rfl, .inl (hw y List.mem_cons_self)⟩
  cases h with
  | comment hw => apply hopening hw (by decide)
  | tempo hw => apply hopening hw (by decide)
  | time hw => apply hopening hw (by decide)
  | @checkpoint w₁ stars w₂ hw hstars =>
    obtain _ | ⟨x, stars⟩ := stars
    · cases hstars.1 rfl
    · have hx : x = '*' := eq_of_beq (hstars.2 x List.mem_cons_self)
      apply hopening hw
      rw [hx]
      decide
  | voice hw => apply hopening hw (by decide)
  | measure hw => apply hopening hw (by decide)
  | reset hw => apply hopening hw (by decide)
  | note hw => apply hopening hw (by decide)

theorem Spells.ne_nil (h : Spells r p c) :
  p ≠ []
  := by
  obtain ⟨x, u, rfl, -⟩ := h.head
  apply List.cons_ne_nil

theorem Spelled.eq_nil (h : Spelled ps []) :
  ps = []
  := by
  generalize ht : ([] : Text) = t at h
  cases h with
  | filler => rfl
  | phrase hp h => cases hp.ne_nil (List.append_eq_nil_iff.mp ht.symm).1

/-- Nothing goes on over the start of a score. -/
theorem Spelled.ends (h : Spelled ps t) :
  Ends t
  := by
  have hopening {x : Char} (hx : isFiller x ∨ x ∈ "~[*%|;(".toList) :
      isInner x = false ∧ x ≠ dot := by
    obtain hx | hx := hx
    · use isInner_eq_false_of_isFiller hx
      rintro rfl
      cases hx
    · have hall : "~[*%|;(".toList.all fun x => !isInner x && x != dot := by decide
      simpa using List.all_eq_true.mp hall x hx
  intro x hx
  cases h with
  | filler hw => apply hopening (.inl (hw x (List.mem_of_head? hx)))
  | phrase hp h =>
    obtain ⟨y, u, rfl, hy⟩ := hp.head
    obtain ⟨⟩ := hx
    apply hopening hy

/-- A phrase that ends with a star where the score goes on is a checkpoint without filler behind
it. -/
theorem Spells.stars_of_last (h : Spells r p c) (hlast : p.getLast? = some '*') (hr : r ≠ []) :
  ∃ w stars, Filler w ∧ Run (· == '*') stars ∧ p = w ++ stars ∧ c = ⟨.checkpoint, stars⟩
  := by
  have hmem := List.mem_of_getLast? hlast
  have hfiller {w : Text} (hw : Filler w) : '*' ∉ w := hw.not_mem rfl
  have hdots {t : Text} (ht : ∀ c ∈ t, c = '+') : '*' ∉ t := not_mem_of_dots ht (by decide)
  have hline {w line e : Text} {x : Char} (he : e = ['\n'] ∨ e = [] ∧ r = []) :
      [w, [x], line, e].flatten.getLast? ≠ some '*' := by
    obtain rfl | ⟨-, rfl⟩ := he
    · have htext : [w, [x], line, ['\n']].flatten = w ++ x :: line ++ ['\n'] := by
        simp
      rw [htext, List.getLast?_concat]
      decide
    · cases hr rfl
  cases h with
  | comment hw hnewline he => cases hline he hlast
  | tempo hw₁ hw₂ hnumber hw₃ hw₄ =>
    simp [hfiller hw₁, hfiller hw₂, hnumber.not_mem, hfiller hw₃, hfiller hw₄] at hmem
  | time hw₁ hw₂ hfraction hw₃ hw₄ =>
    simp [hfiller hw₁, hfiller hw₂, hfraction.not_mem (c := '*') rfl, hfiller hw₃,
      hfiller hw₄] at hmem
  | @checkpoint w₁ stars w₂ hw₁ hstars hw₂ =>
    obtain rfl : w₂ = [] := by
      by_contra hne
      have htext : [w₁, stars, w₂].flatten = w₁ ++ stars ++ w₂ := by
        simp
      rw [htext, List.getLast?_append_of_ne_nil _ hne] at hlast
      apply hfiller hw₂ (List.mem_of_getLast? hlast)
    exact ⟨w₁, stars, hw₁, hstars, by simp, rfl⟩
  | voice hw₁ hw₂ hname hw₃ =>
    simp [hfiller hw₁, hfiller hw₂, hname.not_mem (c := '*') rfl, hfiller hw₃] at hmem
  | measure hw₁ hw₂ => simp [hfiller hw₁, hfiller hw₂] at hmem
  | reset hw hnewline he => cases hline he hlast
  | note hw₁ hw₂ hname hw₃ hfraction hinner hw₄ houter hw₅ =>
    simp [hfiller hw₁, hfiller hw₂, hname.not_mem (c := '*') rfl, hw₃.not_mem (c := '*') rfl,
      hfraction.not_mem (c := '*') rfl, hdots hinner, hfiller hw₄, hdots houter, hfiller hw₅]
        at hmem

/-- Stars go on into a score if they go on into its first phrase. -/
theorem Spelled.cutsStars_iff (h : Spelled ps t) (p : Text) :
  CutsStars p t ↔ ∃ q ∈ ps.head?, CutsStars p q.text
  := by
  cases h with
  | @filler w hw =>
    constructor
    · rintro ⟨-, hhead⟩
      cases hw '*' (List.mem_of_head? hhead)
    · rintro ⟨q, hq, -⟩
      cases hq
  | @phrase q c ps t hq h =>
    simp [CutsStars, List.head?_append_of_ne_nil _ hq.ne_nil]

end Phrases

end Tunescript.Score
