import Tunescript.Proofs.Score.NoteSpans
import Tunescript.Proofs.Text.Pieces

/-!
# The voices that lines name

The voice at a cursor is looked for line by line, while the grammar tells where the voices of a
score are.  A `%` that is the first thing on its line is the mark of a voice (`Spells.opensLine`),
so that the lines that are looked at are those which a voice opens.  At a note token the voice is
that of the last of them, as long as it is written in two words, the `%` and the name
(`voiceAt_of_lineVoice`).
-/

namespace Tunescript.Score

open Text (pieces words isBlank)

/-- On the last line of the text there are only blanks. -/
def Fresh (t : Text) : Prop :=
  ∃ u b, t = u ++ b ∧ (u = [] ∨ u.getLast? = some '\n') ∧ ∀ c ∈ b, isBlank c ∧ c ≠ '\n'

/-- The name on the last line that names a voice. -/
def namedVoice? (t : Text) : Option Text := (pieces '\n' t).reverse.findSome? voiceOfLine?

section Lines

variable {t u : Text}

theorem Fresh.isBlank {a b : Text} {c : Char} (h : Fresh (a ++ c :: b)) (hb : '\n' ∉ b) :
  isBlank c
  := by
  obtain ⟨u, v, hsplit, hu, hv⟩ := h
  obtain ⟨w, rfl, hw⟩ | ⟨w, rfl, rfl⟩ := List.append_eq_append_iff.mp hsplit
  · obtain _ | ⟨d, w⟩ := w
    · apply (hv c _).1
      rw [← List.nil_append v, ← hw]
      apply List.mem_cons_self
    · obtain ⟨rfl, rfl⟩ := List.cons_eq_cons.mp hw
      obtain hu | hu := hu
      · simp at hu
      · rw [List.getLast?_append_of_ne_nil _ (List.cons_ne_nil _ _), List.getLast?_cons] at hu
        obtain _ | ⟨e, w⟩ := w
        · cases hu
          rfl
        · have hmem : '\n' ∈ e :: w := by
            apply List.mem_of_getLast?
            simpa [List.getLast?_cons] using hu
          cases hb (List.mem_append_left _ hmem)
  · apply (hv c _).1
    simp

theorem Fresh.behind_lineEnd (h : Fresh t) (u : Text) :
  Fresh (u ++ '\n' :: t)
  := by
  obtain ⟨v, b, rfl, hv, hb⟩ := h
  refine ⟨u ++ '\n' :: v, b, by simp, .inr ?_, hb⟩
  obtain rfl | hv := hv
  · simp
  · simp [List.getLast?_cons, hv]

/-- The voice at a position is named by the text up to the end of its line. -/
theorem voiceAt_append (t u : Text) :
  voiceAt (t ++ u) t.length =
    (namedVoice? (t ++ u.takeWhile (· != '\n'))).getD Oscillator.defaultVoice
  := by
  have hcount : Text.lineEndsBefore (t ++ u) t.length = t.count '\n' := by
    rw [Text.lineEndsBefore, Text.bound_eq_of_le (by simp), List.take_left]
  rw [voiceAt, hcount, Text.take_pieces, namedVoice?]

theorem namedVoice?_append (t u : Text) :
  namedVoice? (t ++ '\n' :: u) = (namedVoice? u).or (namedVoice? t)
  := by
  rw [namedVoice?, Text.pieces_append, List.reverse_append, List.findSome?_append]
  rfl

/-- Without a `%` that is the first thing on its line, no line names a voice. -/
theorem namedVoice?_eq_none (h : ∀ a b, t = a ++ '%' :: b → ¬Fresh a) :
  namedVoice? t = none
  := by
  rw [namedVoice?, List.findSome?_eq_none_iff]
  intro line hline
  rw [voiceOfLine?, if_neg]
  intro hvoice
  obtain ⟨hnot, a, b, rfl, ha⟩ := Text.exists_of_mem_pieces (List.mem_reverse.mp hline)
  obtain ⟨v, hv⟩ : ∃ v, line.dropWhile isBlank = '%' :: v :=
    List.head?_eq_some_iff.mp (beq_iff_eq.mp hvoice)
  have hsplit : line = line.takeWhile isBlank ++ '%' :: v := by
    rw [← hv, List.takeWhile_append_dropWhile]
  apply h (a ++ line.takeWhile isBlank) (v ++ b)
  · conv_lhs => rw [hsplit]
    simp
  · refine ⟨a, line.takeWhile isBlank, rfl, ha, ?_⟩
    intro c hc
    use List.mem_takeWhile_imp hc
    rintro rfl
    apply hnot ((List.takeWhile_subset _) hc)

/-- The name on a line that opens with a `%` is the one that is found, if no line below opens with
one. -/
theorem namedVoice?_line {a l r name : Text} (ha : Fresh a) (hl : '\n' ∉ l)
    (hr : r = [] ∨ r.head? = some '\n') (hname : (words ('%' :: l))[1]? = some name)
    (hbelow : ∀ x y, r = x ++ '%' :: y → ¬Fresh (a ++ '%' :: (l ++ x))) :
  namedVoice? (a ++ '%' :: (l ++ r)) = some name
  := by
  obtain ⟨u, b, rfl, hu, hb⟩ := ha
  have hblank : ∀ c ∈ b, isBlank c := fun c hc => (hb c hc).1
  have hline : namedVoice? (b ++ '%' :: l) = some name := by
    have hnot : '\n' ∉ b ++ '%' :: l := by
      simp only [List.mem_append, List.mem_cons, not_or]
      exact ⟨fun hmem => (hb _ hmem).2 rfl, by decide, hl⟩
    have hvoice : isVoiceLine (b ++ '%' :: l) := by
      rw [isVoiceLine, opensWith, Text.trimStart, List.dropWhile_append_of_pos hblank]
      rfl
    rw [namedVoice?, Text.pieces_of_not_mem hnot, List.reverse_singleton, List.findSome?_singleton,
      voiceOfLine?, if_pos hvoice, Text.words_append_of_blank hblank, hname]
  have hrow : namedVoice? (b ++ '%' :: (l ++ r)) = some name := by
    obtain _ | ⟨d, r⟩ := r
    · rw [List.append_nil, hline]
    · obtain rfl : d = '\n' := by simpa using hr
      have hnone : namedVoice? r = none := by
        apply namedVoice?_eq_none
        rintro x y rfl hx
        apply hbelow ('\n' :: x) y rfl
        simpa using hx.behind_lineEnd (u ++ b ++ '%' :: l)
      have hsplit : b ++ '%' :: (l ++ '\n' :: r) = (b ++ '%' :: l) ++ '\n' :: r := by simp
      rw [hsplit, namedVoice?_append, hnone, hline, Option.none_or]
  obtain rfl | hu := hu
  · apply hrow
  · obtain ⟨u, rfl⟩ := List.getLast?_eq_some_iff.mp hu
    have hsplit : u ++ ['\n'] ++ b ++ '%' :: (l ++ r) = u ++ '\n' :: (b ++ '%' :: (l ++ r)) := by
      simp
    rw [hsplit, namedVoice?_append, hrow, Option.some_or]

end Lines

/-- The texts of phrases, one behind the other. -/
def texts (ps : List Phrase) : Text := (ps.map Phrase.text).flatten

/-- The phrase starts with a `%` that is the first thing on its line, where the given text stands in
front of the phrase. -/
def Phrase.OpensLine (p : Phrase) (front : Text) : Prop :=
  (skip p.text).head? = some '%' ∧ Fresh (front ++ p.text.takeWhile isFiller)

/-- The noun of the phrase is the second word on the line from its first mark on, where the given
text stands behind the phrase. -/
def Phrase.Worded (p : Phrase) (behind : Text) : Prop :=
  (words ((skip p.text ++ behind).takeWhile (· != '\n')))[1]? = some p.command.noun

/-- None of the phrases opens its line with a `%`, where the given text stands in front of them. -/
def NoneOpens (front : Text) (ps : List Phrase) : Prop :=
  ∀ us p vs, ps = us ++ p :: vs → ¬p.OpensLine (front ++ texts us)

/-- The voice named by the last of the phrases that opens its line, as long as its name is the
second word there; the given text stands behind the phrases. -/
inductive LineVoice (ps : List Phrase) (behind : Text) : Text → Prop
  /-- No phrase opens a line with a voice. -/
  | default (h : NoneOpens [] ps) : LineVoice ps behind Oscillator.defaultVoice
  /-- The last line that opens with a voice names it. -/
  | last {us vs : List Phrase} {p : Phrase} (hps : ps = us ++ p :: vs)
    (hopens : p.OpensLine (texts us))
    (hworded : p.Worded (texts vs ++ behind)) (h : NoneOpens (texts (us ++ [p])) vs) :
    LineVoice ps behind p.command.noun

section Openings

variable {r p t a b w front : Text} {c : Command} {ps qs : List Phrase}

@[simp]
theorem texts_nil :
  texts [] = []
  := rfl

@[simp]
theorem texts_cons (p : Phrase) (ps : List Phrase) :
  texts (p :: ps) = p.text ++ texts ps
  := rfl

@[simp]
theorem texts_append (ps qs : List Phrase) :
  texts (ps ++ qs) = texts ps ++ texts qs
  := by
  rw [texts, List.map_append, List.flatten_append]
  rfl

theorem NoneOpens.of_cons {p : Phrase} (h : NoneOpens front (p :: ps)) :
  ¬p.OpensLine front ∧ NoneOpens (front ++ p.text) ps
  := by
  constructor
  · simpa using h [] p ps rfl
  · rintro us q vs rfl
    simpa using h (p :: us) q vs rfl

/-- A character that a text does not have stands behind it. -/
theorem exists_of_append_eq {x : Char} (hx : x ∉ w) (h : w ++ t = a ++ x :: b) :
  ∃ a', a = w ++ a' ∧ t = a' ++ x :: b
  := by
  obtain h | ⟨u, rfl, hu⟩ := List.append_eq_append_iff.mp h
  · exact h
  · obtain _ | ⟨y, u⟩ := u
    · exact ⟨[], by simp, hu.symm⟩
    · obtain ⟨rfl, -⟩ := List.cons_eq_cons.mp hu
      simp at hx

/-- A character that a text does not have stands in front of it. -/
theorem exists_of_append_eq_left {x : Char} (hx : x ∉ t) (h : w ++ t = a ++ x :: b) :
  ∃ u, w = a ++ x :: u
  := by
  obtain ⟨u, -, hu⟩ | ⟨u, rfl, hu⟩ := List.append_eq_append_iff.mp h
  · simp [hu] at hx
  · obtain _ | ⟨y, u⟩ := u
    · rw [List.nil_append] at hu
      rw [← hu] at hx
      cases hx List.mem_cons_self
    · obtain ⟨rfl, -⟩ := List.cons_eq_cons.mp hu
      exact ⟨u, rfl⟩

/-- A phrase that starts with a `%` sets a voice. -/
theorem Spells.exists_voice (h : Spells r p c) (hmark : (skip p).head? = some '%') :
  c.verb = .voice ∧ ∃ w u, Filler w ∧ p = w ++ '%' :: u ∧ '%' ∉ u
  := by
  have hverb : c.verb = .voice := by
    obtain ⟨htoken, -⟩ | ⟨-, hmarked, -⟩ := h.opening
    · rw [Phrase.IsToken, hmark] at htoken
      cases htoken
    · rw [Phrase.Marked, hmark] at hmarked
      obtain ⟨verb, noun⟩ := c
      cases verb <;> first | rfl | cases hmarked
  use hverb
  cases h with
  | @voice w₁ w₂ name w₃ hw₁ hw₂ hname hw₃ =>
    refine ⟨w₁, w₂ ++ (name ++ w₃), hw₁, by simp, ?_⟩
    simp [hw₂.not_mem (c := '%') rfl, hname.not_mem (c := '%') rfl, hw₃.not_mem (c := '%') rfl]
  | @note w₁ _ _ _ _ _ _ _ _ hw₁ =>
    rw [List.flatten_cons, hw₁.skip_append] at hmark
    cases hmark
  | _ => cases hverb

/-- A `%` that is the first thing on its line is the mark of a voice. -/
theorem Spells.opensLine (h : Spells r p c) (hp : p = a ++ '%' :: b) (hfresh : Fresh (front ++ a)) :
  Phrase.OpensLine ⟨p, c⟩ front
  := by
  have hmem : '%' ∈ p := by
    simp [hp]
  -- Behind the mark of a remark its line goes on up to the `%`, but the mark is no blank.
  have hremark {w line e : Text} {x : Char} (hw : Filler w) (hx : '%' ≠ x) (hline : '\n' ∉ line)
      (he : e = ['\n'] ∨ e = [] ∧ r = []) (hp : w ++ ([x] ++ (line ++ e)) = a ++ '%' :: b) :
      isBlank x := by
    obtain ⟨v, rfl, hv⟩ := exists_of_append_eq (hw.not_mem rfl) hp
    obtain ⟨u, rfl, hu⟩ := exists_of_append_eq (List.mem_singleton.not.mpr hx) hv
    have hend : '%' ∉ e := by
      obtain rfl | ⟨rfl, -⟩ := he
      · decide
      · apply List.not_mem_nil
    obtain ⟨l, rfl⟩ := exists_of_append_eq_left hend hu
    have hfresh : Fresh ((front ++ w) ++ x :: u) := by
      simpa using hfresh
    apply hfresh.isBlank
    intro hmem
    apply hline (List.mem_append_left _ hmem)
  cases h with
  | comment hw hline he => cases hremark (x := '~') hw (by decide) hline he (by simpa using hp)
  | reset hw hline he => cases hremark (x := ';') hw (by decide) hline he (by simpa using hp)
  | tempo hw₁ hw₂ hnumber hw₃ hw₄ =>
    simp [hw₁.not_mem (c := '%') rfl, hw₂.not_mem (c := '%') rfl, hnumber.not_mem (c := '%') rfl,
      hw₃.not_mem (c := '%') rfl, hw₄.not_mem (c := '%') rfl] at hmem
  | time hw₁ hw₂ hfraction hw₃ hw₄ =>
    simp [hw₁.not_mem (c := '%') rfl, hw₂.not_mem (c := '%') rfl, hfraction.not_mem (c := '%') rfl,
      hw₃.not_mem (c := '%') rfl, hw₄.not_mem (c := '%') rfl] at hmem
  | checkpoint hw₁ hstars hw₂ =>
    simp [hw₁.not_mem (c := '%') rfl, hstars.not_mem (c := '%') rfl,
      hw₂.not_mem (c := '%') rfl] at hmem
  | measure hw₁ hw₂ => simp [hw₁.not_mem (c := '%') rfl, hw₂.not_mem (c := '%') rfl] at hmem
  | note hw₁ hw₂ hname hw₃ hfraction hinner hw₄ houter hw₅ =>
    have hdots {d : Text} (hd : ∀ c ∈ d, c = '+') : '%' ∉ d := not_mem_of_dots hd (by decide)
    simp [hw₁.not_mem (c := '%') rfl, hw₂.not_mem (c := '%') rfl, hname.not_mem (c := '%') rfl,
      hw₃.not_mem (c := '%') rfl, hfraction.not_mem (c := '%') rfl, hdots hinner,
      hw₄.not_mem (c := '%') rfl, hdots houter, hw₅.not_mem (c := '%') rfl] at hmem
  | @voice w₁ w₂ name w₃ hw₁ hw₂ hname hw₃ =>
    have hbehind : '%' ∉ w₂ ++ (name ++ w₃) := by
      simp [hw₂.not_mem (c := '%') rfl, hname.not_mem (c := '%') rfl, hw₃.not_mem (c := '%') rfl]
    have hsplit : w₁ ++ (['%'] ++ (w₂ ++ (name ++ w₃))) = a ++ '%' :: b := by
      simpa using hp
    obtain ⟨u, rfl, hu⟩ := exists_of_append_eq (hw₁.not_mem rfl) hsplit
    obtain rfl : u = [] := by
      obtain _ | ⟨x, u⟩ := u
      · rfl
      · have hbehind' : w₂ ++ (name ++ w₃) = u ++ '%' :: b := (List.cons_eq_cons.mp hu).2
        simp [hbehind'] at hbehind
    constructor
    · rw [List.flatten_cons, hw₁.skip_append]
      rfl
    · dsimp only
      rw [List.flatten_cons, (takeWhile_exact hw₁ _).1]
      · simpa using hfresh
      · rintro c ⟨⟩
        rfl

/-- Among the phrases of a score in which none opens its line, no `%` is the first thing on its
line. -/
theorem Spelled.not_fresh (h : Spelled (ps ++ qs) (a ++ '%' :: b)) (hnone : NoneOpens front ps)
    (hlt : a.length < (texts ps).length) :
  ¬Fresh (front ++ a)
  := by
  generalize ht : a ++ '%' :: b = t at h
  induction ps generalizing front a t with
  | nil => cases Nat.not_lt_zero _ hlt
  | cons p ps ih =>
    intro hfresh
    obtain ⟨hfirst, hrest⟩ := hnone.of_cons
    cases h with
    | @phrase p c _ t hp h =>
      obtain ⟨u, hu, hb⟩ | ⟨a, rfl, hb⟩ := List.append_eq_append_iff.mp ht
      · obtain _ | ⟨x, u⟩ := u
        · have hlt : 0 < (texts ps).length := by
            simpa [hu] using hlt
          apply ih hrest (a := []) hlt t hb h
          simpa [hu] using hfresh
        · obtain ⟨rfl, -⟩ := List.cons_eq_cons.mp hb
          apply hfirst (hp.opensLine hu hfresh)
      · have hlt : a.length < (texts ps).length := by
          simpa using hlt
        apply ih hrest hlt t hb.symm h
        simpa using hfresh

/-- The last character of a note token is no blank. -/
theorem NoteToken.exists_last (k : NoteToken) :
  ∃ u c, k.text = u ++ [c] ∧ isBlank c = false
  := by
  obtain houter | ⟨u, c, houter⟩ := List.eq_nil_or_concat k.outer
  · exact ⟨'(' :: k.inside, ')', by simp [NoteToken.text, NoteToken.body, houter], rfl⟩
  · have hc : c = '+' := by
      apply k.dots_outer
      simp [houter]
    exact ⟨k.body ++ u, c, by simp [NoteToken.text, houter], by rw [hc]; rfl⟩

theorem NoteToken.percent_not_mem (k : NoteToken) :
  '%' ∉ k.text
  := by
  have hinside : '%' ∉ k.inside := k.not_mem_inside rfl rfl rfl (by decide)
  have houter : '%' ∉ k.outer := not_mem_of_dots k.dots_outer (by decide)
  simp [NoteToken.text, NoteToken.body, hinside, houter]

/-- Where no phrase in front of a note token opens its line, no `%` up to the end of the line that a
character of the token stands on is the first thing on its line. -/
theorem not_fresh_of_token {k : NoteToken} {u v : Text} (hk : k.text = u ++ v) (hw : Filler w)
    (h : Spelled (ps ++ qs) (texts ps ++ (w ++ (k.text ++ r)))) (hnone : NoneOpens front ps)
    (hsplit : texts ps ++ (w ++ (u ++ (v ++ r).takeWhile (· != '\n'))) = a ++ '%' :: b) :
  ¬Fresh (front ++ a)
  := by
  have hnot := k.percent_not_mem
  rw [hk, List.mem_append, not_or] at hnot
  obtain hlt | hle := Nat.lt_or_ge a.length (texts ps).length
  · have htext : texts ps ++ (w ++ (k.text ++ r)) =
        a ++ '%' :: (b ++ (v ++ r).dropWhile (· != '\n')) := by
      rw [← List.cons_append, ← List.append_assoc a, ← hsplit, hk]
      simp
    rw [htext] at h
    apply h.not_fresh hnone hlt
  · obtain ⟨x, rfl, hx⟩ : ∃ x, a = texts ps ++ x ∧
        w ++ (u ++ (v ++ r).takeWhile (· != '\n')) = x ++ '%' :: b := by
      obtain ⟨x, rfl⟩ : texts ps <+: a :=
        List.prefix_of_prefix_length_le ⟨_, hsplit⟩ (List.prefix_append _ _) hle
      use x, rfl
      rwa [List.append_assoc, List.append_cancel_left_eq] at hsplit
    obtain ⟨y, rfl, hy⟩ := exists_of_append_eq (hw.not_mem rfl) hx
    obtain ⟨z, rfl, hz⟩ := exists_of_append_eq hnot.1 hy
    have hline : '\n' ∉ z := by
      intro hmem
      have hmem := List.mem_takeWhile_imp (hz ▸ List.mem_append_left _ hmem)
      cases hmem
    have hbehind : v ++ r = z ++ '%' :: (b ++ (v ++ r).dropWhile (· != '\n')) := by
      rw [← List.cons_append, ← List.append_assoc z, ← hz, List.takeWhile_append_dropWhile]
    obtain ⟨z, rfl, -⟩ := exists_of_append_eq hnot.2 hbehind
    obtain ⟨l, c, hl, hc⟩ := k.exists_last
    rw [List.mem_append, not_or] at hline
    intro hfresh
    have hfresh : Fresh ((front ++ (texts ps ++ (w ++ l))) ++ c :: z) := by
      have hlast : u ++ (v ++ z) = l ++ c :: z := by
        rw [← List.append_assoc, ← hk, hl]
        simp
      rw [hlast] at hfresh
      simpa using hfresh
    have hblank := hfresh.isBlank hline.2
    rw [hc] at hblank
    cases hblank

/-- Behind the phrases at the start of a score stands the rest of it. -/
theorem Spelled.behind (h : Spelled (ps ++ qs) (texts ps ++ t)) :
  Spelled qs t
  := by
  induction ps with
  | nil => exact h
  | cons p ps ih =>
    generalize hu : texts (p :: ps) ++ t = u at h
    cases h with
    | phrase hp h =>
      obtain rfl := List.append_cancel_left ((List.append_assoc _ _ _).symm.trans hu)
      apply ih h

/-- The characters of a class at the start of a text that is cut off behind such characters are
those of the whole text. -/
theorem takeWhile_append_takeWhile (p : Char → Bool) (t u : Text) :
  (t ++ u.takeWhile p).takeWhile p = (t ++ u).takeWhile p
  := by
  rw [List.takeWhile_append, List.takeWhile_append, List.takeWhile_takeWhile]
  simp

/-- At each character of a note token the voice is the one that the lines up to the token name. -/
theorem voiceAt_of_lineVoice {k : NoteToken} {u v name : Text} (hk : k.text = u ++ v)
    (hw : Filler w) (h : Spelled (ps ++ qs) (texts ps ++ (w ++ (k.text ++ r))))
    (hvoice : LineVoice ps (w ++ (k.text ++ r)) name) :
  voiceAt (texts ps ++ (w ++ (k.text ++ r))) (texts ps ++ (w ++ u)).length = name
  := by
  have htext : texts ps ++ (w ++ (k.text ++ r)) = (texts ps ++ (w ++ u)) ++ (v ++ r) := by
    simp [hk]
  rw [htext, voiceAt_append]
  cases hvoice with
  | default hnone =>
    rw [namedVoice?_eq_none]
    · rfl
    · intro a b hsplit
      rw [← List.nil_append a]
      apply not_fresh_of_token hk hw h hnone
      rw [← hsplit]
      simp
  | @last us vs p hps hopens hworded hnone =>
    subst hps
    obtain ⟨r', hp⟩ := h.exists_spells (p := p) (by simp)
    obtain ⟨-, f, s, hf, hptext, hs⟩ := hp.exists_voice hopens.1
    have hskip : skip p.text = '%' :: s ∧ p.text.takeWhile isFiller = f := by
      rw [hptext, hf.skip_append]
      use rfl
      apply (takeWhile_exact hf _).1
      rintro c ⟨⟩
      rfl
    have hrest : Spelled (vs ++ qs) (texts vs ++ (w ++ (k.text ++ r))) := by
      have hsplit : Spelled ((us ++ [p]) ++ (vs ++ qs))
          (texts (us ++ [p]) ++ (texts vs ++ (w ++ (k.text ++ r)))) := by
        simpa using h
      apply hsplit.behind
    -- What stands behind the `%`, up to the end of the line that the character of the token stands
    -- on.
    let m := s ++ (texts vs ++ (w ++ (u ++ (v ++ r).takeWhile (· != '\n'))))
    have hsplit : texts (us ++ p :: vs) ++ (w ++ u) ++ (v ++ r).takeWhile (· != '\n') =
        (texts us ++ f) ++ '%' :: (m.takeWhile (· != '\n') ++ m.dropWhile (· != '\n')) := by
      rw [List.takeWhile_append_dropWhile]
      simp [m, hptext]
    rw [hsplit]
    suffices hnamed : namedVoice? ((texts us ++ f) ++
        '%' :: (m.takeWhile (· != '\n') ++ m.dropWhile (· != '\n'))) = some p.command.noun by
      rw [hnamed]
      rfl
    apply namedVoice?_line
    · simpa [hskip.2] using hopens.2
    · intro hmem
      cases List.mem_takeWhile_imp hmem
    · have hhead := List.head?_dropWhile_not (· != '\n') m
      cases hr : (m.dropWhile (· != '\n')).head? with
      | none => exact .inl (List.head?_eq_none_iff.mp hr)
      | some c =>
        rw [hr] at hhead
        apply Or.inr
        simpa using hhead
    · have hline : (skip p.text ++ (texts vs ++ (w ++ (k.text ++ r)))).takeWhile (· != '\n') =
          '%' :: m.takeWhile (· != '\n') := by
        have hcut := takeWhile_append_takeWhile (· != '\n') (s ++ (texts vs ++ (w ++ u))) (v ++ r)
        rw [hskip.1, hk, List.cons_append, List.takeWhile_cons_of_pos rfl]
        simp only [List.append_assoc] at hcut ⊢
        rw [← hcut]
      rw [Phrase.Worded, hline] at hworded
      exact hworded
    · intro x y hxy
      have hm : s ++ (texts vs ++ (w ++ (u ++ (v ++ r).takeWhile (· != '\n')))) =
          (m.takeWhile (· != '\n') ++ x) ++ '%' :: y := by
        rw [List.append_assoc, ← hxy, List.takeWhile_append_dropWhile]
      obtain ⟨a, ha, htail⟩ := exists_of_append_eq hs hm
      have hnot := not_fresh_of_token hk hw hrest hnone htail
      simpa [ha, hptext] using hnot

end Openings

end Tunescript.Score
