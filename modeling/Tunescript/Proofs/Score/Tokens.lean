import Tunescript.Proofs.Layout.RoundTrip

/-!
# Note tokens

A phrase that starts with a parenthesis is a note token.  Its name alone tells its verb: a note, or
the verb of which the name is the word (`Spells.opening`).  Every other phrase starts with the mark
of its verb.  The note tokens of a score are notes, and its control commands have the syntax of
their verbs, exactly if no note token is named by the word of another verb (`tokens_are_notes_iff`).
-/

namespace Tunescript

namespace Verb

/-- The words of the verbs that control the playing. -/
def controlWords : List Text := controls.map word

theorem isNote_eq_false_iff (v : Verb) :
  v.isNote = false ↔ v ∈ controls
  := by
  cases v <;> simp [isNote, controls]

theorem word_mem_controlWords {v : Verb} (h : v.isNote = false) :
  v.word ∈ controlWords
  := List.mem_map_of_mem ((isNote_eq_false_iff v).mp h)

/-- A word stands for a note unless it is that of a verb that controls the playing. -/
theorem isNote_ofWord_iff (w : Text) :
  (ofWord w).isNote ↔ w ∉ controlWords
  := by
  constructor
  · intro hnote hmem
    obtain ⟨v, hv, rfl⟩ := List.mem_map.mp hmem
    have hcontrols : ∀ v ∈ controls, (ofWord v.word).isNote = false := by decide
    rw [hcontrols v hv] at hnote
    cases hnote
  · intro hnot
    by_contra hcontrol
    have hmem := word_mem_controlWords (Bool.not_eq_true _ |>.mp hcontrol)
    rw [word_ofWord] at hmem
    apply hnot hmem

end Verb

namespace Score

open Layout (mark)

/-- The phrase is a note token: it starts with a parenthesis. -/
def Phrase.IsToken (p : Phrase) : Prop := (skip p.text).head? = some '('

/-- The name in a note token. -/
def Phrase.name (p : Phrase) : Text := (skip ((skip p.text).drop 1)).takeWhile isNameChar

/-- The phrase starts with the mark of its verb. -/
def Phrase.Marked (p : Phrase) : Prop := (skip p.text).head? = some (mark p.command.verb)

variable {r p t : Text} {c : Command} {ps : List Phrase}

/-- What starts with another character behind filler is no note token. -/
theorem Phrase.not_isToken {w u : Text} {x : Char} (hw : Filler w) (hx : isFiller x = false)
    (hparen : x ≠ '(') :
  ¬Phrase.IsToken ⟨w ++ x :: u, c⟩
  := by
  rw [Phrase.IsToken, hw.skip_append, skip_cons_of_not_filler hx]
  rintro ⟨⟩
  apply hparen rfl

/-- A phrase is a note token with the name that tells its verb, or it starts with the mark of a verb
that controls the playing. -/
theorem Spells.opening (h : Spells r p c) :
  (Phrase.IsToken ⟨p, c⟩ ∧ c.verb = Verb.ofWord (Phrase.name ⟨p, c⟩)) ∨
    (¬Phrase.IsToken ⟨p, c⟩ ∧ Phrase.Marked ⟨p, c⟩ ∧ c.verb.isNote = false)
  := by
  have hmarked {w u : Text} {c : Command} {x : Char} (hw : Filler w) (hx : isFiller x = false)
      (hmark : mark c.verb = x) (hcontrol : c.verb.isNote = false) (hparen : x ≠ '(') :
      ¬Phrase.IsToken ⟨w ++ x :: u, c⟩ ∧ Phrase.Marked ⟨w ++ x :: u, c⟩ ∧
        c.verb.isNote = false := by
    use Phrase.not_isToken hw hx hparen
    rw [Phrase.Marked, hw.skip_append, skip_cons_of_not_filler hx, hmark]
    exact ⟨rfl, hcontrol⟩
  cases h with
  | comment hw => exact .inr (hmarked hw rfl rfl rfl (by decide))
  | tempo hw => exact .inr (hmarked hw rfl rfl rfl (by decide))
  | time hw => exact .inr (hmarked hw rfl rfl rfl (by decide))
  | @checkpoint w₁ stars w₂ hw hstars =>
    obtain _ | ⟨x, stars⟩ := stars
    · cases hstars.1 rfl
    · obtain rfl : x = '*' := eq_of_beq (hstars.2 x List.mem_cons_self)
      exact .inr (hmarked hw rfl rfl rfl (by decide))
  | voice hw => exact .inr (hmarked hw rfl rfl rfl (by decide))
  | measure hw => exact .inr (hmarked hw rfl rfl rfl (by decide))
  | reset hw => exact .inr (hmarked hw rfl rfl rfl (by decide))
  | @note w₁ w₂ name w₃ fraction inner w₄ outer w₅ hw₁ hw₂ hname hw₃ =>
    have hskip : skip [w₁, ['('], w₂, name, w₃, fraction, inner, w₄, [')'], outer, w₅].flatten =
        '(' :: (w₂ ++ (name ++ (w₃ ++ [fraction, inner, w₄, [')'], outer, w₅].flatten))) := by
      rw [List.flatten_cons, hw₁.skip_append]
      rfl
    apply Or.inl
    rw [Phrase.IsToken, Phrase.name, hskip]
    use rfl
    -- The filler behind the name ends it.
    have hends : Stops isNameChar (w₃ ++ [fraction, inner, w₄, [')'], outer, w₅].flatten) := by
      intro c hc
      rw [List.head?_append_of_ne_nil _ hw₃.1] at hc
      apply eq_false_of_isFiller isInner_of_isNameChar c (hw₃.2 c (List.mem_of_head? hc))
    have htake := (takeWhile_exact hname.2 hends).1
    have hinner : ∀ c ∈ name, isInner c := fun c hc => isInner_of_isNameChar c (hname.2 c hc)
    rw [List.drop_succ_cons, List.drop_zero, hw₂.skip_append, skip_of_inner hname.1 hinner, htake]

/-- A note token spells a note exactly if its name is not the word of another verb. -/
theorem Spells.plain_iff (h : Spells r p c) :
  Phrase.Plain ⟨p, c⟩ ↔
    (Phrase.IsToken ⟨p, c⟩ → Phrase.name ⟨p, c⟩ ∉ Verb.controlWords)
  := by
  obtain ⟨htoken, hverb⟩ | ⟨hnot, -, -⟩ := h.opening
  · rw [← Verb.isNote_ofWord_iff, ← hverb]
    rfl
  · constructor
    · intro _ htoken
      apply absurd htoken hnot
    · intro _ htoken
      apply absurd htoken hnot

/-- A control command has the syntax of its verb exactly if it does not come from a note token. -/
theorem Spells.marked_iff (h : Spells r p c) :
  (c.verb.isNote = false → Phrase.Marked ⟨p, c⟩) ↔
    (Phrase.IsToken ⟨p, c⟩ → Phrase.name ⟨p, c⟩ ∉ Verb.controlWords)
  := by
  obtain ⟨htoken, hverb⟩ | ⟨hnot, hmarked, -⟩ := h.opening
  · rw [← Verb.isNote_ofWord_iff, ← hverb]
    constructor
    · intro hmarked _
      by_contra hcontrol
      have hmark := hmarked (Bool.not_eq_true _ |>.mp hcontrol)
      rw [Phrase.Marked, htoken, Option.some_inj] at hmark
      dsimp only at hmark
      cases hverb' : c.verb with
      | note name => simp [hverb', Verb.isNote] at hcontrol
      | _ =>
        rw [hverb'] at hmark
        cases hmark
    · intro hnote hcontrol
      rw [hnote htoken] at hcontrol
      cases hcontrol
  · constructor
    · intro _ htoken
      apply absurd htoken hnot
    · intro _ _
      apply hmarked

theorem Spelled.exists_spells (h : Spelled ps t) {p : Phrase} (hp : p ∈ ps) :
  ∃ r, Spells r p.text p.command
  := by
  induction h with
  | filler => cases hp
  | @phrase q c ps t hq h ih =>
    obtain rfl | hp := List.mem_cons.mp hp
    · exact ⟨t, hq⟩
    · apply ih hp

/-- However a score that can be read is put together from phrases, its note tokens are notes exactly
if no name of a note token is the word of another verb, and exactly then its control commands start
with the marks of their verbs.  The name of a note token is the word of its verb. -/
theorem tokens_are_notes_iff {t : Text} {cs : List Command} (h : Score.read t = .ok cs) :
  (∃ ps, Spelled ps t ∧ WholeStars ps) ∧
    ∀ ps, Spelled ps t → WholeStars ps → ps.map Phrase.command = cs ∧
      ((∀ p ∈ ps, p.IsToken → p.command.verb.isNote) ↔
        ∀ p ∈ ps, p.IsToken → p.name ∉ Verb.controlWords) ∧
      ((∀ p ∈ ps, p.command.verb.isNote = false → p.Marked) ↔
        ∀ p ∈ ps, p.IsToken → p.name ∉ Verb.controlWords) ∧
      (∀ p ∈ ps, p.IsToken → p.command.verb.word = p.name) ∧
      ∀ p ∈ ps, p.command.verb.isNote → p.IsToken
  := by
  have hcs := read_eq_ok.mp h
  constructor
  · obtain ⟨ps, hps, hwhole, -⟩ := spelled_of_commands hcs
    exact ⟨ps, hps, hwhole⟩
  · intro ps hps hwhole
    have hspells (p : Phrase) (hp : p ∈ ps) : ∃ r, Spells r p.text p.command := hps.exists_spells hp
    refine ⟨?_, ?_, ?_, ?_, ?_⟩
    · rw [(commands_of_spelled hps).2 hwhole] at hcs
      apply Except.ok.inj hcs
    · apply forall₂_congr
      intro p hp
      obtain ⟨r, hr⟩ := hspells p hp
      apply hr.plain_iff
    · apply forall₂_congr
      intro p hp
      obtain ⟨r, hr⟩ := hspells p hp
      apply hr.marked_iff
    · intro p hp htoken
      obtain ⟨r, hr⟩ := hspells p hp
      obtain ⟨-, hverb⟩ | ⟨hnot, -⟩ := hr.opening
      · rw [hverb, Verb.word_ofWord]
      · cases hnot htoken
    · intro p hp hnote
      obtain ⟨r, hr⟩ := hspells p hp
      obtain ⟨htoken, -⟩ | ⟨-, -, hcontrol⟩ := hr.opening
      · apply htoken
      · rw [hnote] at hcontrol
        cases hcontrol

/-- A note token of a quarter with the given name. -/
def quarterToken (name : Text) : Phrase :=
  ⟨'(' :: (name ++ " 1/4)".toList), ⟨Verb.ofWord name, "1/4".toList⟩⟩

/-- A bar. -/
def bar : Phrase := ⟨['|'], ⟨.measure, ['|']⟩⟩

section Spelling

variable {ps : List Phrase} {t : Text}

theorem Spelled.bar (h : Spelled ps t) :
  Spelled (bar :: ps) ('|' :: t)
  := .phrase (.measure filler_nil filler_nil) h

theorem Spelled.quarterToken {name : Text} (hname : Run isNameChar name) (h : Spelled ps t) :
  Spelled (quarterToken name :: ps) ((quarterToken name).text ++ t)
  := by
  have hfraction : Run isFractionChar "1/4".toList :=
    ⟨List.cons_ne_nil _ _, List.all_eq_true.mp rfl⟩
  have hspells : Spells t _ _ :=
    .note filler_nil filler_nil hname run_space hfraction dots_nil filler_nil dots_nil filler_nil
  rw [Score.quarterToken]
  simpa using Spelled.phrase hspells h

end Spelling

/-- A score of two notes with a bar between them, whose names are their own. -/
theorem tokens_are_notes_bar :
  Score.read "(Cn_4 1/4)|(En_4 1/4)".toList =
      .ok [⟨.note "Cn_4".toList, "1/4".toList⟩, ⟨.measure, ['|']⟩,
        ⟨.note "En_4".toList, "1/4".toList⟩] ∧
    ∃ ps, Spelled ps "(Cn_4 1/4)|(En_4 1/4)".toList ∧ WholeStars ps ∧ ps.length = 3 ∧
      (∀ p ∈ ps, p.IsToken → p.command.verb.isNote) ∧
      ∀ p ∈ ps, p.command.verb.isNote = false → p.Marked
  := by
  have hread : Score.read "(Cn_4 1/4)|(En_4 1/4)".toList =
      .ok [⟨.note "Cn_4".toList, "1/4".toList⟩, ⟨.measure, ['|']⟩,
        ⟨.note "En_4".toList, "1/4".toList⟩] := by
    decide +kernel
  have hfirst : Run isNameChar "Cn_4".toList := ⟨List.cons_ne_nil _ _, List.all_eq_true.mp rfl⟩
  have hsecond : Run isNameChar "En_4".toList := ⟨List.cons_ne_nil _ _, List.all_eq_true.mp rfl⟩
  have hspelled : Spelled [quarterToken "Cn_4".toList, bar, quarterToken "En_4".toList]
      "(Cn_4 1/4)|(En_4 1/4)".toList :=
    .quarterToken hfirst (.bar (.quarterToken hsecond (.filler filler_nil)))
  have hwhole : WholeStars [quarterToken "Cn_4".toList, bar, quarterToken "En_4".toList] := by
    unfold WholeStars CutsStars
    decide
  have hnot : ∀ p ∈ [quarterToken "Cn_4".toList, bar, quarterToken "En_4".toList],
      p.IsToken → p.name ∉ Verb.controlWords := by
    unfold Phrase.IsToken
    decide
  obtain ⟨-, hnotes, hmarked, -⟩ := (tokens_are_notes_iff hread).2 _ hspelled hwhole
  exact ⟨hread, _, hspelled, hwhole, rfl, hnotes.mpr hnot, hmarked.mpr hnot⟩

/-- A note named by the word of the comments is read as a comment. -/
theorem not_tokens_are_notes_commentWord :
  Score.read "(comment 1/4)".toList = .ok [⟨.comment, "1/4".toList⟩] ∧
    ∃ ps, Spelled ps "(comment 1/4)".toList ∧ WholeStars ps ∧
      (¬∀ p ∈ ps, p.IsToken → p.command.verb.isNote) ∧
      ¬∀ p ∈ ps, p.command.verb.isNote = false → p.Marked
  := by
  have hname : Run isNameChar "comment".toList := ⟨List.cons_ne_nil _ _, List.all_eq_true.mp rfl⟩
  have hspelled : Spelled [quarterToken "comment".toList] "(comment 1/4)".toList :=
    .quarterToken hname (.filler filler_nil)
  refine ⟨by decide +kernel, _, hspelled, List.isChain_singleton _, ?_, ?_⟩
  · intro hnotes
    cases hnotes _ List.mem_cons_self rfl
  · intro hmarked
    cases hmarked _ List.mem_cons_self rfl

end Score

end Tunescript
