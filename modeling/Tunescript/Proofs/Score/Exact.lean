import Tunescript.Proofs.Score.Alike
import Tunescript.Proofs.Score.Joined

/-!
# Exact reading

Each part of a command is read exactly where the text behind it does not go on with characters of
its class: the characters of a class (`some1_exact`), given characters (`literal_append`) and the
stars of a checkpoint (`commands_star`).  Where something else stands, there is no tempo
(`tempo_fails`).
-/

namespace Tunescript.Score

section Chars

theorem isInner_eq_false_of_isFiller {c : Char} (h : isFiller c) :
  isInner c = false
  := by
  simp only [isFiller, isInlineFiller, Bool.or_eq_true, beq_iff_eq] at h
  obtain (((rfl | rfl) | rfl) | rfl) | rfl := h
  · rfl
  · rfl
  · rfl
  · rfl
  · rfl

theorem isFiller_eq_false_of_isInner {c : Char} (h : isInner c) :
  isFiller c = false
  := by
  apply Bool.eq_false_iff.mpr
  intro hfiller
  rw [isInner_eq_false_of_isFiller hfiller] at h
  cases h

theorem skip_cons_of_filler {c : Char} (h : isFiller c) (t : Text) :
  skip (c :: t) = skip t
  := List.dropWhile_cons_of_pos h

theorem skip_cons_of_not_filler {c : Char} (h : isFiller c = false) (t : Text) :
  skip (c :: t) = c :: t
  := List.dropWhile_cons_of_neg (Bool.eq_false_iff.mp h)

/-- The text does not go on with a character of the class. -/
def Stops (p : Char → Bool) (t : Text) : Prop := ∀ c, t.head? = some c → p c = false

/-- The characters of a class in front of a text that goes on with none of them. -/
theorem takeWhile_exact {p : Char → Bool} {b r : Text} (hb : ∀ c ∈ b, p c) (hr : Stops p r) :
  (b ++ r).takeWhile p = b ∧ (b ++ r).dropWhile p = r
  := by
  rw [List.takeWhile_append_of_pos hb, List.dropWhile_append_of_pos hb]
  cases r with
  | nil => exact ⟨List.append_nil b, rfl⟩
  | cons c r =>
    have hc := hr c rfl
    simp [hc]

theorem some1_exact {p : Char → Bool} {e : Expectation} {b r : Text} (hne : b ≠ [])
    (hb : ∀ c ∈ b, p c) (hr : Stops p r) :
  some1 p e (b ++ r) = .ok (b, r)
  := by
  obtain ⟨htake, hdrop⟩ := takeWhile_exact hb hr
  rw [some1, htake, hdrop, if_neg]
  rw [List.isEmpty_iff]
  apply hne

theorem literal_append (l t : Text) :
  literal l (l ++ t) = .ok t
  := by
  rw [literal, if_pos, List.drop_left]
  apply List.isPrefixOf_iff_prefix.mpr (List.prefix_append l t)

theorem skip_of_inner {b r : Text} (hne : b ≠ []) (hb : ∀ c ∈ b, isInner c) :
  skip (b ++ r) = b ++ r
  := by
  cases b with
  | nil => cases hne rfl
  | cons c b =>
    apply skip_cons_of_not_filler
    apply isFiller_eq_false_of_isInner (hb c List.mem_cons_self)

end Chars

section Openings

variable (t : Text)

theorem command_comment :
  command ('~' :: t) = .ok (comment t)
  := rfl

theorem command_bracket :
  command ('[' :: t) = bracket t
  := rfl

theorem command_stars :
  command ('*' :: t) = .ok (checkpoint t)
  := rfl

theorem command_voice :
  command ('%' :: t) = voice t
  := rfl

theorem command_bar :
  command ('|' :: t) = .ok (⟨.measure, ['|']⟩, skip t)
  := rfl

theorem command_reset :
  command (';' :: t) = .ok (reset t)
  := rfl

theorem command_note :
  command ('(' :: t) = note t
  := rfl

end Openings

/-- The text goes on none of the words and dots before it. -/
def Ends (t : Text) : Prop := ∀ c, t.head? = some c → isInner c = false ∧ c ≠ dot

theorem Ends.stops {t : Text} (h : Ends t) {p : Char → Bool} (hp : ∀ c, p c → isInner c) :
  Stops p t
  := by
  intro c hc
  apply Bool.eq_false_iff.mpr
  intro hpc
  have hinner := (h c hc).1
  rw [hp c hpc] at hinner
  cases hinner

theorem Ends.stops_dot {t : Text} (h : Ends t) :
  Stops (· == dot) t
  := fun c hc => beq_eq_false_iff_ne.mpr (h c hc).2

/-- Where a fraction is followed by neither a suffix nor another sign, there is no tempo. -/
theorem tempo_fails {t u : Text} {c : Char}
    (h : (skip t).dropWhile isFractionChar = c :: u) (hc : c ≠ '_') :
  ∃ o, tempo t = .error o
  := by
  cases htempo : tempo t with
  | error o => exact ⟨o, rfl⟩
  | ok p =>
    obtain ⟨v, hv⟩ := dropWhile_of_tempo htempo
    rw [h] at hv
    cases hv
    cases hc rfl

section Star

variable {t : Text}

theorem commands_star (t : Text) :
  commands ('*' :: t) = (commands (t.dropWhile (· == '*'))).map
    (⟨.checkpoint, '*' :: t.takeWhile (· == '*')⟩ :: ·)
  := by
  rw [commands_of_ok (command_stars t), commands_congr (skip_skip _)]

/-- A star in front of a text without one is a checkpoint by itself. -/
theorem commands_star_of_not_star (ht : ∀ c, t.head? = some c → c ≠ '*') :
  commands ('*' :: t) = (commands t).map (oneStar :: ·)
  := by
  have hsplit := takeWhile_exact (p := (· == '*')) (b := []) (r := t) nofun
    fun c hc => beq_eq_false_iff_ne.mpr (ht c hc)
  rw [List.nil_append] at hsplit
  rw [commands_star, hsplit.1, hsplit.2]
  rfl

/-- A star in front of stars is one more of them. -/
theorem commands_star_star (t : Text) :
  commands ('*' :: '*' :: t) = (commands ('*' :: t)).map (fuse oneStar)
  := by
  rw [commands_star, commands_star, List.takeWhile_cons_of_pos rfl, List.dropWhile_cons_of_pos rfl]
  obtain _ | cs := commands (t.dropWhile (· == '*'))
  · rfl
  · rfl

end Star

end Tunescript.Score
