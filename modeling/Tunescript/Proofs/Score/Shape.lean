import Tunescript.Proofs.Score.Alike
import Tunescript.Proofs.Text.Trim
import Tunescript.Score.Address

/-!
# Shapes of commands

The commands that are read have nouns of certain shapes (`Command.Shaped`).  The noun of a note is a
length, a fraction with dots behind it.  A note whose name is the word of another verb is read as a
command with that verb, so that every noun may also be a length.  A comment or a reset that was not
read from such a note is the last command of its line (`shapedLine_of_commands`).
-/

namespace Tunescript

open Text (Trimmed isBlank)

namespace Score

/-- Whether a text is a fraction with dots behind it. -/
def isLengthText (t : Text) : Bool :=
  !(t.takeWhile isFractionChar).isEmpty && (t.dropWhile isFractionChar).all (· == dot)

theorem isLengthText_append {length dots : Text} (hne : length ≠ [])
    (hlength : ∀ c ∈ length, isFractionChar c) (hdots : ∀ c ∈ dots, c = dot) :
  isLengthText (length ++ dots)
  := by
  have hstop : dots.takeWhile isFractionChar = [] ∧ dots.dropWhile isFractionChar = dots := by
    cases dots with
    | nil => exact ⟨rfl, rfl⟩
    | cons c dots =>
      rw [hdots c List.mem_cons_self]
      exact ⟨rfl, rfl⟩
  rw [isLengthText, List.takeWhile_append_of_pos hlength, List.dropWhile_append_of_pos hlength,
    hstop.1, hstop.2, List.append_nil]
  rw [Bool.and_eq_true, List.all_eq_true]
  constructor
  · simp [hne]
  · intro c hc
    rw [hdots c hc]
    rfl

/-- A length is a fraction and dots. -/
theorem exists_of_isLengthText {t : Text} (h : isLengthText t) :
  ∃ length dots, t = length ++ dots ∧ length ≠ [] ∧ (∀ c ∈ length, isFractionChar c) ∧
    ∀ c ∈ dots, c = dot
  := by
  rw [isLengthText, Bool.and_eq_true, List.all_eq_true] at h
  obtain ⟨hne, hdots⟩ := h
  refine ⟨t.takeWhile isFractionChar, t.dropWhile isFractionChar, ?_, ?_, ?_, ?_⟩
  · rw [List.takeWhile_append_dropWhile]
  · simpa using hne
  · intro c hc
    apply List.mem_takeWhile_imp hc
  · intro c hc
    apply beq_iff_eq.mp (hdots c hc)

theorem isInner_bounds {c : Char} (h : isInner c) :
  0x29 ≤ c.toNat ∧ c.toNat ≤ 0x7a
  := by
  have halphanum : c.isAlphanum = (decide ('A'.val ≤ c.val ∧ c.val ≤ 'Z'.val) ||
      ('a'.val ≤ c.val && c.val ≤ 'z'.val) || ('0'.val ≤ c.val && c.val ≤ '9'.val)) := rfl
  have hval : c.val.toNat = c.toNat := rfl
  simp only [isInner, isNameChar, halphanum, Bool.or_eq_true, Bool.and_eq_true, decide_eq_true_eq,
    beq_iff_eq, UInt32.le_iff_toNat_le] at h
  obtain (((((hupper | hlower) | hdigit) | rfl) | rfl) | rfl) | rfl := h
  · have hZ : 'Z'.val.toNat = 90 := rfl
    have hA : 'A'.val.toNat = 65 := rfl
    omega
  · have hz : 'z'.val.toNat = 122 := rfl
    have ha : 'a'.val.toNat = 97 := rfl
    omega
  · have h9 : '9'.val.toNat = 57 := rfl
    have h0 : '0'.val.toNat = 48 := rfl
    omega
  · decide
  · decide
  · decide
  · decide

theorem isBlank_eq_false_of_isInner {c : Char} (h : isInner c) :
  isBlank c = false
  := by
  obtain ⟨hlow, hhigh⟩ := isInner_bounds h
  apply Bool.eq_false_iff.mpr
  intro hblank
  simp only [isBlank, Text.wideBlanks, Bool.or_eq_true, Bool.and_eq_true, decide_eq_true_eq,
    List.contains_eq_mem, List.mem_cons, List.not_mem_nil, or_false] at hblank
  omega

end Score

namespace Verb

/-- Whether a verb takes the rest of the line as its noun. -/
def isRemark : Verb → Bool
  | comment => true
  | reset => true
  | _ => false

end Verb

namespace Command

open Score

/-- The noun of a command as it can be read. -/
def Shaped (c : Command) : Prop :=
  match c.verb with
  | .note name => Verb.ofWord name = .note name ∧ name ≠ [] ∧ (∀ x ∈ name, isNameChar x) ∧
    isLengthText c.noun
  | .tempo => isLengthText c.noun
  | .time => isLengthText c.noun
  | .voice => (c.noun ≠ [] ∧ ∀ x ∈ c.noun, isNameChar x) ∨ isLengthText c.noun
  | .comment => '\n' ∉ c.noun ∧ Trimmed c.noun
  | .reset => '\n' ∉ c.noun ∧ Trimmed c.noun
  | .measure => True
  | .checkpoint => True

end Command

namespace Score

theorem isFractionChar_of_isLengthText {t : Text} (h : isLengthText t) (c : Char) (hc : c ∈ t) :
  isFractionChar c ∨ c = dot
  := by
  obtain ⟨length, dots, rfl, -, hlength, hdots⟩ := exists_of_isLengthText h
  obtain hc | hc := List.mem_append.mp hc
  · exact .inl (hlength c hc)
  · exact .inr (hdots c hc)

theorem isBlank_eq_false_of_isLengthText {t : Text} (h : isLengthText t) (c : Char)
    (hc : c ∈ t) :
  isBlank c = false
  := by
  obtain hfraction | rfl := isFractionChar_of_isLengthText h c hc
  · apply isBlank_eq_false_of_isInner (isInner_of_isFractionChar c hfraction)
  · decide

theorem trimmed_of_not_blank {t : Text} (h : ∀ c ∈ t, isBlank c = false) :
  Trimmed t
  := by
  constructor
  · intro c hc
    apply h c (List.mem_of_head? hc)
  · intro c hc
    apply h c (List.mem_of_getLast? hc)

/-- A length may be the noun of every verb that is read from a note. -/
theorem shaped_ofWord {name noun : Text} (hne : name ≠ []) (hname : ∀ x ∈ name, isNameChar x)
    (hnoun : isLengthText noun) :
  Command.Shaped ⟨Verb.ofWord name, noun⟩
  := by
  have hblank := isBlank_eq_false_of_isLengthText hnoun
  have hnewline : '\n' ∉ noun := by
    intro hmem
    cases hblank '\n' hmem
  rw [Command.Shaped]
  cases hverb : Verb.ofWord name with
  | note word =>
    have hword := Verb.word_ofWord name
    rw [hverb] at hword
    cases hword
    exact ⟨hverb, hne, hname, hnoun⟩
  | tempo => apply hnoun
  | time => apply hnoun
  | voice => exact .inr hnoun
  | comment => exact ⟨hnewline, trimmed_of_not_blank hblank⟩
  | reset => exact ⟨hnewline, trimmed_of_not_blank hblank⟩
  | measure => trivial
  | checkpoint => trivial

theorem newline_not_mem_trim_restOfLine (t : Text) :
  '\n' ∉ Text.trim (restOfLine t).1
  := by
  intro hmem
  cases List.mem_takeWhile_imp (Text.mem_of_mem_trim hmem)

theorem isLengthText_of_fraction {t : Text} (hne : t ≠ []) (h : ∀ c ∈ t, isFractionChar c) :
  isLengthText t
  := by
  rw [← List.append_nil t]
  apply isLengthText_append hne h
  intro c hc
  cases hc

theorem mem_takeWhile_dot {t : Text} (c : Char) (hc : c ∈ t.takeWhile (· == dot)) :
  c = dot
  := by
  have hdot := List.mem_takeWhile_imp hc
  apply beq_iff_eq.mp hdot

theorem shaped_bracket {t r : Text} {c : Command} (h : bracket t = .ok (c, r)) :
  c.Shaped ∧ c.verb.isRemark = false
  := by
  rw [bracket] at h
  split at h
  · rename_i p htempo
    cases h
    obtain ⟨number, t₁, t₂, t₃, hnumber, -, -, rfl, -⟩ := tempo_eq_ok htempo
    obtain ⟨hne, rfl, -⟩ := eq_of_some1 hnumber
    refine ⟨isLengthText_of_fraction hne ?_, rfl⟩
    intro c hc
    apply isFractionChar_of_isDigit c (List.mem_takeWhile_imp hc)
  · split at h
    · rename_i p htime
      cases h
      obtain ⟨fraction, t₁, t₂, hfraction, -, rfl, -⟩ := time_eq_ok htime
      obtain ⟨hne, rfl, -⟩ := eq_of_some1 hfraction
      refine ⟨isLengthText_of_fraction hne ?_, rfl⟩
      intro c hc
      apply List.mem_takeWhile_imp hc
    · cases h

theorem shaped_command {t r : Text} {c : Command} (h : command t = .ok (c, r)) :
  c.Shaped ∧ (c.verb.isRemark → isLengthText c.noun ∨ ∃ u, u <:+ t ∧ r = (restOfLine u).2)
  := by
  rw [command] at h
  split at h
  · rename_i u hu
    cases h
    refine ⟨⟨newline_not_mem_trim_restOfLine u, Text.trimmed_trim _⟩, fun _ => .inr ⟨u, ?_, rfl⟩⟩
    apply (List.suffix_cons '~' u).trans
    rw [← hu]
    apply List.dropWhile_suffix
  · obtain ⟨hshaped, hremark⟩ := shaped_bracket h
    use hshaped
    intro h
    rw [hremark] at h
    cases h
  · cases h
    use trivial
    intro h
    cases h
  · obtain ⟨name, t₁, hname, rfl, -⟩ := voice_eq_ok h
    obtain ⟨hne, rfl, -⟩ := eq_of_some1 hname
    constructor
    · apply Or.inl
      use hne
      intro c hc
      apply List.mem_takeWhile_imp hc
    · intro h
      cases h
  · cases h
    use trivial
    intro h
    cases h
  · rename_i u hu
    cases h
    refine ⟨⟨newline_not_mem_trim_restOfLine _, Text.trimmed_trim _⟩, fun _ => .inr ?_⟩
    refine ⟨u.dropWhile isInlineFiller, ?_, rfl⟩
    apply (List.dropWhile_suffix _).trans
    exact (List.suffix_cons ';' u).trans (hu ▸ List.dropWhile_suffix _)
  · obtain ⟨name, t₁, gap, t₂, length, t₃, t₄, hname, -, hlength, -, rfl, -⟩ := note_eq_ok h
    obtain ⟨hne, rfl, -⟩ := eq_of_some1 hname
    obtain ⟨hne', rfl, -⟩ := eq_of_some1 hlength
    have hnoun : isLengthText (t₂.takeWhile isFractionChar ++ t₃.takeWhile (· == dot) ++
        t₄.takeWhile (· == dot)) := by
      rw [List.append_assoc]
      apply isLengthText_append hne'
      · intro c hc
        apply List.mem_takeWhile_imp hc
      · intro c hc
        obtain hc | hc := List.mem_append.mp hc
        · apply mem_takeWhile_dot c hc
        · apply mem_takeWhile_dot c hc
    refine ⟨shaped_ofWord hne ?_ hnoun, fun _ => .inl hnoun⟩
    intro c hc
    apply List.mem_takeWhile_imp hc
  · cases h

section Suffix

variable {t r : Text}

theorem skip_suffix (t : Text) :
  skip t <:+ t
  := List.dropWhile_suffix _

theorem suffix_of_some1 {p : Char → Bool} {e : Expectation} {n : Text}
    (h : some1 p e t = .ok (n, r)) :
  r <:+ t
  := by
  obtain ⟨-, -, rfl⟩ := eq_of_some1 h
  apply List.dropWhile_suffix

theorem suffix_of_literal {l : Text} (h : literal l t = .ok r) :
  r <:+ t
  := by
  rw [literal] at h
  split at h
  · cases h
    apply List.drop_suffix
  · cases h

theorem restOfLine_suffix (t : Text) :
  (restOfLine t).2 <:+ t
  := (List.drop_suffix _ _).trans (List.dropWhile_suffix _)

theorem suffix_of_bracket {c : Command} (h : bracket t = .ok (c, r)) :
  r <:+ t
  := by
  rw [bracket] at h
  split at h
  · rename_i p htempo
    cases h
    obtain ⟨number, t₁, t₂, t₃, hnumber, hsuffix, hclose, -, rfl⟩ := tempo_eq_ok htempo
    apply (skip_suffix _).trans
    apply (suffix_of_literal hclose).trans
    apply (skip_suffix _).trans
    apply (suffix_of_literal hsuffix).trans
    apply (suffix_of_some1 hnumber).trans
    apply skip_suffix
  · split at h
    · rename_i p htime
      cases h
      obtain ⟨fraction, t₁, t₂, hfraction, hclose, -, rfl⟩ := time_eq_ok htime
      apply (skip_suffix _).trans
      apply (suffix_of_literal hclose).trans
      apply (skip_suffix _).trans
      apply (suffix_of_some1 hfraction).trans
      apply skip_suffix
    · cases h

theorem suffix_of_note {c : Command} (h : note t = .ok (c, r)) :
  r <:+ t
  := by
  obtain ⟨name, t₁, gap, t₂, length, t₃, t₄, hname, hgap, hlength, hclose, -, rfl⟩ := note_eq_ok h
  apply (skip_suffix _).trans
  apply (List.dropWhile_suffix _).trans
  apply (suffix_of_literal hclose).trans
  apply (skip_suffix _).trans
  apply (List.dropWhile_suffix _).trans
  apply (suffix_of_some1 hlength).trans
  apply (suffix_of_some1 hgap).trans
  apply (suffix_of_some1 hname).trans
  apply skip_suffix

/-- What is left after a command is the end of the text. -/
theorem suffix_of_command {c : Command} (h : command t = .ok (c, r)) :
  r <:+ t
  := by
  have hopening {o : Char} {u : Text} (hu : skip t = o :: u) : u <:+ t :=
    (List.suffix_cons o u).trans (hu ▸ skip_suffix t)
  rw [command] at h
  split at h
  · rename_i u hu
    cases h
    apply (restOfLine_suffix u).trans (hopening hu)
  · rename_i u hu
    apply (suffix_of_bracket h).trans (hopening hu)
  · rename_i u hu
    cases h
    apply (skip_suffix _).trans
    apply (List.dropWhile_suffix _).trans (hopening hu)
  · rename_i u hu
    obtain ⟨name, t₁, hname, -, rfl⟩ := voice_eq_ok h
    apply (skip_suffix _).trans
    apply (suffix_of_some1 hname).trans
    apply (skip_suffix u).trans (hopening hu)
  · rename_i u hu
    cases h
    apply (skip_suffix u).trans (hopening hu)
  · rename_i u hu
    cases h
    apply (restOfLine_suffix _).trans
    apply (List.dropWhile_suffix _).trans (hopening hu)
  · rename_i u hu
    apply (suffix_of_note h).trans (hopening hu)
  · cases h

end Suffix

/-- Nothing follows a line end in the text. -/
def IsLine (t : Text) : Prop := ∀ u v, t = u ++ '\n' :: v → v = []

theorem newline_not_mem_dropLast_iff {t : Text} :
  '\n' ∉ t.dropLast ↔ IsLine t
  := by
  constructor
  · rintro h u v rfl
    obtain _ | ⟨c, v⟩ := v
    · rfl
    · cases h (by simp [List.dropLast_append_of_ne_nil, List.dropLast_cons_of_ne_nil])
  · intro h hmem
    have hne : t ≠ [] := by
      rintro rfl
      cases hmem
    obtain ⟨u, v, huv⟩ := List.append_of_mem hmem
    have hsplit : t = u ++ '\n' :: (v ++ [t.getLast hne]) :=
      calc
        t = t.dropLast ++ [t.getLast hne] := (List.dropLast_append_getLast hne).symm
        _ = u ++ '\n' :: (v ++ [t.getLast hne]) := by
          rw [huv, List.append_assoc, List.cons_append]
    apply List.append_ne_nil_of_right_ne_nil v (List.cons_ne_nil _ _) (h u _ hsplit)

theorem IsLine.of_suffix {t u : Text} (ht : IsLine t) (h : u <:+ t) :
  IsLine u
  := by
  obtain ⟨s, rfl⟩ := h
  rintro v w rfl
  apply ht (s ++ v) w
  rw [List.append_assoc]

theorem restOfLine_of_isLine {t : Text} (h : IsLine t) :
  (restOfLine t).2 = []
  := by
  rw [restOfLine]
  cases hrest : t.dropWhile (· != '\n') with
  | nil => rfl
  | cons c u =>
    have hc := List.head?_dropWhile_not (· != '\n') t
    rw [hrest] at hc
    obtain rfl : c = '\n' := by simpa using hc
    apply h (t.takeWhile (· != '\n')) u
    rw [← hrest, List.takeWhile_append_dropWhile]

/-- The commands of a line: all have their shapes, and a remark is the last one or has a length. -/
structure ShapedLine (cs : List Command) : Prop where
  /-- All have their shapes. -/
  shaped : ∀ c ∈ cs, c.Shaped
  /-- A remark that another command follows was read from a note. -/
  remark : ∀ c ∈ cs.dropLast, c.verb.isRemark → isLengthText c.noun

theorem ShapedLine.tail {c : Command} {cs : List Command} (h : ShapedLine (c :: cs)) :
  ShapedLine cs
  := by
  cases cs with
  | nil => constructor <;> (intro c hc; cases hc)
  | cons d cs =>
    constructor
    · intro e he
      apply h.shaped e (List.mem_cons_of_mem _ he)
    · intro e he
      apply h.remark e (List.mem_cons_of_mem _ he)

theorem shapedLine_of_commands {t : Text} {cs : List Command} (ht : IsLine t)
    (h : commands t = .ok cs) :
  ShapedLine cs
  := by
  induction cs generalizing t with
  | nil => constructor <;> (intro c hc; cases hc)
  | cons c cs ih =>
    obtain ⟨-, hcs⟩ | ⟨c', r, cs', hcommand, hrest, hcs⟩ := commands_eq_ok h
    · cases hcs
    · cases hcs
      have hline := ht.of_suffix (suffix_of_command hcommand)
      obtain ⟨hshaped, hremark⟩ := shaped_command hcommand
      have hcs := ih hline hrest
      constructor
      · intro e he
        obtain rfl | he := List.mem_cons.mp he
        · apply hshaped
        · apply hcs.shaped e he
      · cases cs with
        | nil =>
          intro e he
          cases he
        | cons d cs =>
          intro e he hverb
          obtain rfl | he := List.mem_cons.mp he
          · obtain hlength | ⟨u, hu, rfl⟩ := hremark hverb
            · apply hlength
            · rw [restOfLine_of_isLine (ht.of_suffix hu), commands_nil rfl] at hrest
              cases hrest
          · apply hcs.remark e he hverb

end Score

end Tunescript
