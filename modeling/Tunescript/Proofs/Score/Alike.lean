import Mathlib.Data.List.DropRight
import Mathlib.Data.List.TakeWhile
import Mathlib.Tactic.Common
import Tunescript.Score.Reader
import Tunescript.Text.Lines

/-!
# Texts that are read alike

A reader that stands inside a line reads on in the same way whatever follows the line, until it
comes to a place where no command can go on (`Stop`).  Two texts are alike up to such places if
they have the same lines except for lines of filler (`Alike`).  The commands that are read from
them are the same up to there (`Alike.faithful`), even where a command goes on over the end of a
line.  Reading a line and what follows it is the first case of this (`commands_append`); a line
that can be read only together with what follows it is the second (`not_stop_of_commands_append`).
-/

namespace Tunescript

open Text (endsLine)

namespace Text

theorem endsLine_iff {t : Text} :
  endsLine t ↔ ∃ u, t = u ++ ['\n']
  := by
  rw [endsLine, beq_iff_eq, List.getLast?_eq_some_iff]

theorem endsLine_append {t u : Text} (h : endsLine u) :
  endsLine (t ++ u)
  := by
  obtain ⟨v, rfl⟩ := endsLine_iff.mp h
  apply endsLine_iff.mpr
  use t ++ v
  rw [List.append_assoc]

theorem ne_nil_of_endsLine {t : Text} (h : endsLine t) :
  t ≠ []
  := by
  rintro rfl
  cases h

theorem endsLine_append_of_ne_nil (t : Text) {u : Text} (hu : u ≠ []) :
  endsLine (t ++ u) = endsLine u
  := by
  rw [endsLine, endsLine, List.getLast?_append_of_ne_nil _ hu]

theorem endsLine_of_suffix {t u : Text} (ht : endsLine t) (h : u <:+ t) (hu : u ≠ []) :
  endsLine u
  := by
  obtain ⟨v, rfl⟩ := h
  rwa [endsLine_append_of_ne_nil v hu] at ht

theorem mem_of_endsLine {t : Text} (h : endsLine t) :
  '\n' ∈ t
  := by
  obtain ⟨u, rfl⟩ := endsLine_iff.mp h
  simp

theorem dropWhile_ne_nil {p : Char → Bool} (hp : p '\n' = false) {t : Text} (h : endsLine t) :
  t.dropWhile p ≠ []
  := by
  intro hnil
  have hall := List.dropWhile_eq_nil_iff.mp hnil '\n' (mem_of_endsLine h)
  rw [hp] at hall
  cases hall

theorem endsLine_dropWhile {p : Char → Bool} (hp : p '\n' = false) {t : Text} (h : endsLine t) :
  endsLine (t.dropWhile p)
  := endsLine_of_suffix h (List.dropWhile_suffix p) (dropWhile_ne_nil hp h)

theorem dropWhile_append_of_endsLine {p : Char → Bool} (hp : p '\n' = false) {t : Text}
    (h : endsLine t) (u : Text) :
  (t ++ u).dropWhile p = t.dropWhile p ++ u
  := by
  rw [List.dropWhile_append, if_neg]
  rw [List.isEmpty_iff]
  apply dropWhile_ne_nil hp h

theorem takeWhile_append_of_endsLine {p : Char → Bool} (hp : p '\n' = false) {t : Text}
    (h : endsLine t) (u : Text) :
  (t ++ u).takeWhile p = t.takeWhile p
  := by
  rw [List.takeWhile_append, if_neg]
  intro hlength
  have hall := (List.takeWhile_prefix p (l := t)).eq_of_length hlength
  have hmem := mem_of_endsLine h
  rw [← hall] at hmem
  have hend := List.mem_takeWhile_imp hmem
  rw [hp] at hend
  cases hend

end Text

namespace Score

/-- Whether a command can go on with the character after filler. -/
def isInner (c : Char) : Bool := isNameChar c || c == '/' || c == ']' || c == ')'

/-- No command can go on with the text. -/
def Stop (t : Text) : Prop := ∀ c, (skip t).head? = some c → isInner c = false

/-- The texts have the same lines, except for lines of filler, up to places that `S` relates. -/
inductive Alike (S : Text → Text → Prop) : Text → Text → Prop
  /-- At a place that is related. -/
  | place {x y : Text} (h : S x y) : Alike S x y
  /-- In the last line, which is the same; the ends of the texts are related. -/
  | last (h : S [] []) (u : Text) : Alike S u u
  /-- The first line, or the rest of it, is the same. -/
  | keep {u x y : Text} (hu : endsLine u) (h : Alike S x y) : Alike S (u ++ x) (u ++ y)
  /-- The first lines are filler. -/
  | fill {a d x y : Text} (ha : skip a = []) (hd : skip d = []) (h : Alike S x y) :
    Alike S (a ++ x) (d ++ y)

/-- The texts are alike, and the place where they are read is inside a line. -/
inductive InLine (S : Text → Text → Prop) : Text → Text → Prop
  /-- The line is the last. -/
  | last (h : S [] []) (u : Text) : InLine S u u
  /-- The rest of the line is the same. -/
  | keep {u x y : Text} (hu : endsLine u) (h : Alike S x y) : InLine S (u ++ x) (u ++ y)

theorem InLine.alike {S : Text → Text → Prop} {x y : Text} (h : InLine S x y) :
  Alike S x y
  := by
  cases h with
  | last h u => apply Alike.last h
  | keep hu h => apply Alike.keep hu h

theorem isInner_of_isNameChar (c : Char) (h : isNameChar c) :
  isInner c
  := by
  simp [isInner, h]

theorem isInner_of_isFractionChar (c : Char) (h : isFractionChar c) :
  isInner c
  := by
  rw [isFractionChar, Bool.or_eq_true] at h
  obtain hdigit | hslash := h
  · simp [isInner, isNameChar, Char.isAlphanum, hdigit]
  · simp [isInner, hslash]

theorem isFractionChar_of_isDigit (c : Char) (h : c.isDigit) :
  isFractionChar c
  := by
  simp [isFractionChar, h]

section Skip

theorem skip_append (t u : Text) :
  skip (t ++ u) = if skip t = [] then skip u else skip t ++ u
  := by
  rw [skip, List.dropWhile_append]
  simp only [List.isEmpty_iff]
  rfl

theorem skip_append_of_nil {t : Text} (h : skip t = []) (u : Text) :
  skip (t ++ u) = skip u
  := by
  rw [skip_append, if_pos h]

@[simp]
theorem skip_skip (t : Text) :
  skip (skip t) = skip t
  := List.dropWhile_idempotent _ _

theorem command_skip (t : Text) :
  command (skip t) = command t
  := by
  simp only [command, skip_skip]

theorem command_congr {t u : Text} (h : skip t = skip u) :
  command t = command u
  := by
  rw [← command_skip t, h, command_skip]

theorem commands_of_ok {t r : Text} {c : Command} (h : command t = .ok (c, r)) :
  commands t = (commands r).map (c :: ·)
  := by
  rw [commands]
  split
  · rename_i c' r' h'
    rw [h] at h'
    cases h'
    cases commands r
    · rfl
    · rfl
  · rename_i o h'
    rw [h] at h'
    cases h'

theorem commands_of_error {t : Text} {o : Obstacle} (h : command t = .error o) :
  commands t = if (skip t).isEmpty then .ok [] else .error o
  := by
  rw [commands]
  split
  · rename_i c r h'
    rw [h] at h'
    cases h'
  · rename_i o' h'
    rw [h] at h'
    cases h'
    rfl

theorem commands_congr {t u : Text} (h : skip t = skip u) :
  commands t = commands u
  := by
  cases ht : command t with
  | ok r =>
    obtain ⟨c, r⟩ := r
    rw [commands_of_ok ht]
    rw [command_congr h] at ht
    rw [commands_of_ok ht]
  | error o =>
    rw [commands_of_error ht]
    rw [command_congr h] at ht
    rw [commands_of_error ht, h]

theorem command_nil {t : Text} (h : skip t = []) :
  ∃ o, command t = .error o
  := by
  rw [command, h]
  exact ⟨_, rfl⟩

theorem commands_nil {t : Text} (h : skip t = []) :
  commands t = .ok []
  := by
  obtain ⟨o, ho⟩ := command_nil h
  rw [commands_of_error ho, h]
  rfl

/-- Commands that are read are none, or a first one and those of the rest. -/
theorem commands_eq_ok {t : Text} {cs : List Command} (h : commands t = .ok cs) :
  (skip t = [] ∧ cs = []) ∨
    ∃ c r ds, command t = .ok (c, r) ∧ commands r = .ok ds ∧ cs = c :: ds
  := by
  cases ht : command t with
  | ok r =>
    obtain ⟨c, r⟩ := r
    rw [commands_of_ok ht] at h
    cases hr : commands r with
    | ok ds =>
      rw [hr] at h
      cases h
      exact .inr ⟨c, r, ds, rfl, hr, rfl⟩
    | error o =>
      rw [hr] at h
      cases h
  | error o =>
    rw [commands_of_error ht] at h
    split at h
    · rename_i hskip
      cases h
      exact .inl ⟨List.isEmpty_iff.mp hskip, rfl⟩
    · cases h

end Skip

section Primitives

variable {S : Text → Text → Prop} {x y : Text}

theorem InLine.takeWhile (h : InLine S x y) {p : Char → Bool} (hp : p '\n' = false) :
  x.takeWhile p = y.takeWhile p
  := by
  cases h with
  | last => rfl
  | keep hu h =>
    rw [Text.takeWhile_append_of_endsLine hp hu, Text.takeWhile_append_of_endsLine hp hu]

theorem InLine.dropWhile (h : InLine S x y) {p : Char → Bool} (hp : p '\n' = false) :
  InLine S (x.dropWhile p) (y.dropWhile p)
  := by
  cases h with
  | last h => apply InLine.last h
  | keep hu h =>
    rw [Text.dropWhile_append_of_endsLine hp hu, Text.dropWhile_append_of_endsLine hp hu]
    apply InLine.keep (Text.endsLine_dropWhile hp hu) h

theorem InLine.some1_eq_ok (h : InLine S x y) {p : Char → Bool} (hp : p '\n' = false)
    {e : Expectation} {n r : Text} (hx : some1 p e x = .ok (n, r)) :
  ∃ r', some1 p e y = .ok (n, r') ∧ InLine S r r'
  := by
  rw [Score.some1, h.takeWhile hp] at hx
  rw [Score.some1]
  split at hx
  · cases hx
  · rename_i hempty
    cases hx
    use y.dropWhile p
    rw [if_neg hempty]
    exact ⟨rfl, h.dropWhile hp⟩

theorem InLine.literal_eq_ok (h : InLine S x y) {l : Text} (hl : '\n' ∉ l) {r : Text}
    (hx : literal l x = .ok r) :
  ∃ r', literal l y = .ok r' ∧ InLine S r r'
  := by
  cases h with
  | last h => exact ⟨r, hx, InLine.last h r⟩
  | keep hu h =>
    rename_i u x y
    rw [Score.literal] at hx
    split at hx
    · rename_i hl'
      cases hx
      -- The line end is in the line but not in the literal, so that the literal ends before it.
      have hlu : l <+: u := by
        obtain hlu | hul := List.prefix_or_prefix_of_prefix (List.isPrefixOf_iff_prefix.mp hl')
          (List.prefix_append u x)
        · apply hlu
        · apply absurd (hul.subset (Text.mem_of_endsLine hu)) hl
      obtain ⟨v, rfl⟩ := hlu
      have hv : v ≠ [] := by
        rintro rfl
        rw [List.append_nil] at hu
        apply hl (Text.mem_of_endsLine hu)
      have hv' := Text.endsLine_of_suffix hu (List.suffix_append l v) hv
      use v ++ y
      simp only [Score.literal, List.append_assoc, List.isPrefixOf_iff_prefix, List.prefix_append,
        if_true, List.drop_left, true_and]
      apply InLine.keep hv' h
    · cases hx

/-- Behind the filler the texts are read inside a line, or at a place that is related. -/
theorem Alike.behindFiller (h : Alike S x y) :
  InLine S (skip x) (skip y) ∨ ∃ x' y', S x' y' ∧ skip x = skip x' ∧ skip y = skip y'
  := by
  induction h with
  | place h => exact .inr ⟨_, _, h, rfl, rfl⟩
  | last h u => exact .inl (InLine.last h _)
  | @keep u x y hu h ih =>
    by_cases hnil : Score.skip u = []
    · rw [skip_append_of_nil hnil, skip_append_of_nil hnil]
      apply ih
    · rw [skip_append, skip_append, if_neg hnil, if_neg hnil]
      apply Or.inl
      apply InLine.keep _ h
      apply Text.endsLine_of_suffix hu (List.dropWhile_suffix _) hnil
  | fill ha hd h ih =>
    rw [skip_append_of_nil ha, skip_append_of_nil hd]
    apply ih

theorem Stop.some1_eq_error (h : Stop x) {p : Char → Bool} (hp : ∀ c, p c → isInner c)
    (e : Expectation) :
  ∃ o, some1 p e (skip x) = .error o
  := by
  cases hskip : skip x with
  | nil => exact ⟨_, rfl⟩
  | cons c r =>
    have hc : p c = false := by
      apply Bool.eq_false_iff.mpr
      intro hc
      have hinner := h c (congrArg List.head? hskip)
      rw [hp c hc] at hinner
      cases hinner
    simp [Score.some1, hc]

theorem Stop.literal_eq_error (h : Stop x) {c : Char} (hc : isInner c) :
  ∃ o, literal [c] (skip x) = .error o
  := by
  cases hskip : skip x with
  | nil => exact ⟨_, rfl⟩
  | cons d r =>
    have hd : c ≠ d := by
      rintro rfl
      have hinner := h c (congrArg List.head? hskip)
      rw [hc] at hinner
      cases hinner
    simp [Score.literal, hd]

theorem not_newline_of_inner {p : Char → Bool} (hp : ∀ c, p c → isInner c) :
  p '\n' = false
  := by
  apply Bool.eq_false_iff.mpr
  intro h
  cases hp '\n' h

theorem InLine.head?_eq (h : InLine S x y) :
  x.head? = y.head?
  := by
  cases h with
  | last => rfl
  | @keep u x y hu h =>
    obtain ⟨c, v, rfl⟩ := List.exists_cons_of_ne_nil (Text.ne_nil_of_endsLine hu)
    rfl

theorem eq_of_some1 {p : Char → Bool} {e : Expectation} {t n r : Text}
    (h : some1 p e t = .ok (n, r)) :
  n ≠ [] ∧ n = t.takeWhile p ∧ r = t.dropWhile p
  := by
  rw [some1] at h
  split at h
  · cases h
  · rename_i hempty
    cases h
    rw [List.isEmpty_iff] at hempty
    exact ⟨hempty, rfl, rfl⟩

theorem some1_of_head {p : Char → Bool} {t : Text} {c : Char} (hc : t.head? = some c) (hp : p c)
    (e : Expectation) :
  some1 p e t = .ok (t.takeWhile p, t.dropWhile p)
  := by
  cases t with
  | nil => cases hc
  | cons d t =>
    cases hc
    simp [some1, hp]

theorem InLine.of_nil (h : InLine S [] y) :
  y = [] ∧ S [] []
  := by
  generalize hx : [] = x at h
  cases h with
  | last h =>
    cases hx
    exact ⟨rfl, h⟩
  | keep hu h => apply absurd (List.append_eq_nil_iff.mp hx.symm).1 (Text.ne_nil_of_endsLine hu)

theorem InLine.of_cons {c : Char} (h : InLine S (c :: x) y) (hc : c ≠ '\n') :
  ∃ y', y = c :: y' ∧ InLine S x y'
  := by
  generalize hx : c :: x = z at h
  cases h with
  | last h => exact ⟨x, hx.symm, InLine.last h x⟩
  | @keep u x' y' hu h =>
    obtain ⟨d, v, rfl⟩ := List.exists_cons_of_ne_nil (Text.ne_nil_of_endsLine hu)
    obtain ⟨rfl, rfl⟩ := List.cons.inj hx
    have hv : v ≠ [] := by
      rintro rfl
      apply hc
      apply List.mem_singleton.mp (Text.mem_of_endsLine hu) |>.symm
    use v ++ y', rfl
    apply InLine.keep _ h
    apply Text.endsLine_of_suffix hu (List.suffix_cons c v) hv

theorem InLine.restOfLine (h : InLine S x y) :
  (restOfLine x).1 = (restOfLine y).1 ∧ Alike S (restOfLine x).2 (restOfLine y).2
  := by
  constructor
  · apply h.takeWhile (p := fun c => c != '\n') rfl
  · cases h with
    | last h => apply Alike.last h
    | @keep u x y hu h =>
      have hend := Text.endsLine_dropWhile (p := fun c => c != '\n') rfl hu
      simp only [Score.restOfLine,
        Text.dropWhile_append_of_endsLine (p := fun c => c != '\n') rfl hu]
      obtain ⟨c, v, hv⟩ := List.exists_cons_of_ne_nil (Text.ne_nil_of_endsLine hend)
      rw [hv, List.cons_append, List.cons_append, List.drop_one, List.tail_cons, List.drop_one,
        List.tail_cons]
      by_cases hnil : v = []
      · rw [hnil]
        apply h
      · apply Alike.keep _ h
        rw [hv] at hend
        apply Text.endsLine_of_suffix hend (List.suffix_cons c v) hnil

/-- The filler inside a note may go on over the end of a line. -/
theorem InLine.gap (h : InLine S x y) {e : Expectation} {n r : Text}
    (hx : some1 isFiller e x = .ok (n, r)) :
  r = skip x ∧ ∃ n', some1 isFiller e y = .ok (n', skip y)
  := by
  obtain ⟨hn, rfl, rfl⟩ := eq_of_some1 hx
  use rfl
  cases x with
  | nil => cases hn rfl
  | cons c x =>
    have hc : isFiller c := by
      apply Bool.not_eq_false _ |>.mp
      intro hc
      apply hn
      simp [hc]
    have hhead := h.head?_eq
    exact ⟨_, some1_of_head hhead.symm hc e⟩

variable (hS : ∀ x y, S x y → Stop x)

include hS

theorem Alike.some1_eq_ok (h : Alike S x y) {p : Char → Bool} (hp : ∀ c, p c → isInner c)
    {e : Expectation} {n r : Text} (hx : some1 p e (Score.skip x) = .ok (n, r)) :
  InLine S (Score.skip x) (Score.skip y) ∧
    ∃ r', some1 p e (Score.skip y) = .ok (n, r') ∧ InLine S r r'
  := by
  obtain h | ⟨x', y', h, hx', hy'⟩ := h.behindFiller
  · exact ⟨h, h.some1_eq_ok (not_newline_of_inner hp) hx⟩
  · obtain ⟨o, ho⟩ := (hS x' y' h).some1_eq_error hp e
    rw [hx', ho] at hx
    cases hx

theorem Alike.literal_eq_ok (h : Alike S x y) {c : Char} (hc : isInner c) {r : Text}
    (hx : literal [c] (Score.skip x) = .ok r) :
  ∃ r', literal [c] (Score.skip y) = .ok r' ∧ InLine S r r'
  := by
  obtain h | ⟨x', y', h, hx', hy'⟩ := h.behindFiller
  · apply h.literal_eq_ok _ hx
    intro hmem
    rw [← List.mem_singleton.mp hmem] at hc
    cases hc
  · obtain ⟨o, ho⟩ := (hS x' y' h).literal_eq_error hc
    rw [hx', ho] at hx
    cases hx

end Primitives

section Commands

variable {S : Text → Text → Prop} {x y : Text}

theorem bind_eq_ok {ε α β : Type} {o : Except ε α} {f : α → Except ε β} {b : β}
    (h : o >>= f = .ok b) :
  ∃ a, o = .ok a ∧ f a = .ok b
  := by
  cases o with
  | ok a => exact ⟨a, rfl, h⟩
  | error e => cases h

theorem map_eq_ok {ε α β : Type} {o : Except ε α} {f : α → β} {b : β} (h : o.map f = .ok b) :
  ∃ a, o = .ok a ∧ b = f a
  := by
  cases o with
  | ok a =>
    cases h
    exact ⟨a, rfl, rfl⟩
  | error e => cases h

theorem exists_of_isOk {ε α : Type} {o : Except ε α} (h : o.isOk) :
  ∃ a, o = .ok a
  := by
  cases o with
  | ok a => exact ⟨a, rfl⟩
  | error e => cases h

theorem voice_eq_ok {t r : Text} {c : Command} (h : voice t = .ok (c, r)) :
  ∃ name t₁, some1 isNameChar .voiceName (skip t) = .ok (name, t₁) ∧
    c = ⟨.voice, name⟩ ∧ r = skip t₁
  := by
  obtain ⟨⟨name, t₁⟩, hname, h⟩ := bind_eq_ok h
  cases h
  exact ⟨name, t₁, hname, rfl, rfl⟩

theorem tempo_eq_ok {t r : Text} {c : Command} (h : tempo t = .ok (c, r)) :
  ∃ number t₁ t₂ t₃, some1 Char.isDigit .digit (skip t) = .ok (number, t₁) ∧
    literal tempoSuffix t₁ = .ok t₂ ∧ literal [']'] (skip t₂) = .ok t₃ ∧
    c = ⟨.tempo, number⟩ ∧ r = skip t₃
  := by
  obtain ⟨⟨number, t₁⟩, hnumber, h⟩ := bind_eq_ok h
  obtain ⟨t₂, hsuffix, h⟩ := bind_eq_ok h
  obtain ⟨t₃, hclose, h⟩ := bind_eq_ok h
  cases h
  exact ⟨number, t₁, t₂, t₃, hnumber, hsuffix, hclose, rfl, rfl⟩

theorem time_eq_ok {t r : Text} {c : Command} (h : time t = .ok (c, r)) :
  ∃ fraction t₁ t₂, some1 isFractionChar .timeSignature (skip t) = .ok (fraction, t₁) ∧
    literal [']'] (skip t₁) = .ok t₂ ∧ c = ⟨.time, fraction⟩ ∧ r = skip t₂
  := by
  obtain ⟨⟨fraction, t₁⟩, hfraction, h⟩ := bind_eq_ok h
  obtain ⟨t₂, hclose, h⟩ := bind_eq_ok h
  cases h
  exact ⟨fraction, t₁, t₂, hfraction, hclose, rfl, rfl⟩

theorem note_eq_ok {t r : Text} {c : Command} (h : note t = .ok (c, r)) :
  ∃ name t₁ gap t₂ length t₃ t₄, some1 isNameChar .noteName (skip t) = .ok (name, t₁) ∧
    some1 isFiller .whitespace t₁ = .ok (gap, t₂) ∧
    some1 isFractionChar .noteLength t₂ = .ok (length, t₃) ∧
    literal [')'] (skip (t₃.dropWhile (· == dot))) = .ok t₄ ∧
    c = ⟨Verb.ofWord name, length ++ t₃.takeWhile (· == dot) ++ t₄.takeWhile (· == dot)⟩ ∧
    r = skip (t₄.dropWhile (· == dot))
  := by
  obtain ⟨⟨name, t₁⟩, hname, h⟩ := bind_eq_ok h
  obtain ⟨⟨gap, t₂⟩, hgap, h⟩ := bind_eq_ok h
  obtain ⟨⟨length, t₃⟩, hlength, h⟩ := bind_eq_ok h
  obtain ⟨t₄, hclose, h⟩ := bind_eq_ok h
  cases h
  exact ⟨name, t₁, gap, t₂, length, t₃, t₄, hname, hgap, hlength, hclose, rfl, rfl⟩

/-- Behind the digits of a tempo stands no sign of a time signature. -/
theorem dropWhile_of_tempo {c : Command} {r : Text} (h : tempo x = .ok (c, r)) :
  ∃ t, (skip x).dropWhile isFractionChar = '_' :: t
  := by
  obtain ⟨number, x₁, x₂, x₃, hnumber, hsuffix, -⟩ := tempo_eq_ok h
  obtain ⟨-, rfl, rfl⟩ := eq_of_some1 hnumber
  rw [literal] at hsuffix
  split at hsuffix
  · rename_i hprefix
    obtain ⟨t, ht⟩ := List.isPrefixOf_iff_prefix.mp hprefix
    have hdigits : ∀ c ∈ (skip x).takeWhile Char.isDigit, isFractionChar c := by
      intro c hc
      apply isFractionChar_of_isDigit c (List.mem_takeWhile_imp hc)
    use "bpm".toList ++ t
    rw [← List.takeWhile_append_dropWhile (p := Char.isDigit) (l := skip x),
      List.dropWhile_append_of_pos hdigits, ← ht]
    rfl
  · cases hsuffix

/-- The command is read from the other text as well, and the rests are alike. -/
def SameCommand (S : Text → Text → Prop) (c : Command) (r : Text)
    (o : Except Obstacle (Command × Text)) : Prop :=
  ∃ r' x' y', o = .ok (c, r') ∧ Alike S x' y' ∧ skip r = skip x' ∧ skip r' = skip y'

variable (hS : ∀ x y, S x y → Stop x)

include hS

theorem sameCommand_voice (h : Alike S x y) {c : Command} {r : Text}
    (hx : voice x = .ok (c, r)) :
  SameCommand S c r (voice y)
  := by
  obtain ⟨name, x₁, hname, rfl, rfl⟩ := voice_eq_ok hx
  obtain ⟨-, y₁, hname', h⟩ := h.some1_eq_ok hS isInner_of_isNameChar hname
  refine ⟨skip y₁, x₁, y₁, ?_, h.alike, skip_skip _, skip_skip _⟩
  simp only [voice, hname', bind, Except.bind]
  rfl

theorem sameCommand_tempo (h : Alike S x y) {c : Command} {r : Text}
    (hx : tempo x = .ok (c, r)) :
  SameCommand S c r (tempo y)
  := by
  obtain ⟨number, x₁, x₂, x₃, hnumber, hsuffix, hclose, rfl, rfl⟩ := tempo_eq_ok hx
  obtain ⟨-, y₁, hnumber', h⟩ := h.some1_eq_ok hS
    (fun c hc => isInner_of_isFractionChar c (isFractionChar_of_isDigit c hc)) hnumber
  obtain ⟨y₂, hsuffix', h⟩ := h.literal_eq_ok (by decide) hsuffix
  obtain ⟨y₃, hclose', h⟩ := h.alike.literal_eq_ok hS rfl hclose
  refine ⟨skip y₃, x₃, y₃, ?_, h.alike, skip_skip _, skip_skip _⟩
  simp only [tempo, hnumber', hsuffix', hclose', bind, Except.bind]
  rfl

theorem sameCommand_time (h : Alike S x y) {c : Command} {r : Text}
    (hx : time x = .ok (c, r)) :
  SameCommand S c r (time y)
  := by
  obtain ⟨fraction, x₁, x₂, hfraction, hclose, rfl, rfl⟩ := time_eq_ok hx
  obtain ⟨-, y₁, hfraction', h⟩ := h.some1_eq_ok hS isInner_of_isFractionChar hfraction
  obtain ⟨y₂, hclose', h⟩ := h.alike.literal_eq_ok hS rfl hclose
  refine ⟨skip y₂, x₂, y₂, ?_, h.alike, skip_skip _, skip_skip _⟩
  simp only [time, hfraction', hclose', bind, Except.bind]
  rfl

theorem sameCommand_note (h : Alike S x y) {c : Command} {r : Text}
    (hx : note x = .ok (c, r)) :
  SameCommand S c r (note y)
  := by
  obtain ⟨name, x₁, gap, x₂, length, x₃, x₄, hname, hgap, hlength, hclose, rfl, rfl⟩ :=
    note_eq_ok hx
  have hdot : (fun c => c == dot) '\n' = false := rfl
  obtain ⟨-, y₁, hname', h⟩ := h.some1_eq_ok hS isInner_of_isNameChar hname
  obtain ⟨rfl, gap', hgap'⟩ := h.gap hgap
  obtain ⟨-, y₃, hlength', h⟩ := h.alike.some1_eq_ok hS isInner_of_isFractionChar hlength
  obtain ⟨y₄, hclose', h'⟩ := (h.dropWhile hdot).alike.literal_eq_ok hS rfl hclose
  refine ⟨skip (y₄.dropWhile (· == dot)), x₄.dropWhile (· == dot), y₄.dropWhile (· == dot), ?_,
    (h'.dropWhile hdot).alike, skip_skip _, skip_skip _⟩
  simp only [note, hname', hgap', hlength', hclose', bind, Except.bind]
  rw [h.takeWhile hdot, h'.takeWhile hdot]
  rfl

theorem sameCommand_bracket (h : Alike S x y) {c : Command} {r : Text}
    (hx : bracket x = .ok (c, r)) :
  SameCommand S c r (bracket y)
  := by
  rw [bracket] at hx
  split at hx
  · rename_i p htempo
    cases hx
    obtain ⟨r', x', y', htempo', hrest⟩ := sameCommand_tempo hS h htempo
    refine ⟨r', x', y', ?_, hrest⟩
    rw [bracket, htempo']
  · split at hx
    · rename_i o _ p htime
      cases hx
      -- A tempo in the other text would have the sign that closes the time signature here.
      have hfails : ∃ o', tempo y = .error o' := by
        cases htempo' : tempo y with
        | error o' => exact ⟨o', rfl⟩
        | ok q =>
          obtain ⟨fraction, x₁, x₂, hfraction, hclose, -⟩ := time_eq_ok htime
          obtain ⟨t, ht⟩ := dropWhile_of_tempo htempo'
          obtain ⟨hline, -⟩ := h.some1_eq_ok hS isInner_of_isFractionChar hfraction
          have hhead := (hline.dropWhile
            (not_newline_of_inner isInner_of_isFractionChar)).head?_eq
          obtain ⟨-, -, rfl⟩ := eq_of_some1 hfraction
          rw [ht] at hhead
          cases hrest : (skip x).dropWhile isFractionChar with
          | nil =>
            rw [hrest] at hhead
            cases hhead
          | cons d u =>
            rw [hrest] at hhead hclose
            cases hhead
            cases hclose
      obtain ⟨o', ho'⟩ := hfails
      obtain ⟨r', x', y', htime', hrest⟩ := sameCommand_time hS h htime
      refine ⟨r', x', y', ?_, hrest⟩
      rw [bracket, ho', htime']
    · cases hx

theorem sameCommand_of_inLine (h : InLine S (skip x) (skip y)) {c : Command} {r : Text}
    (hx : command x = .ok (c, r)) :
  SameCommand S c r (command y)
  := by
  rw [command] at hx
  split at hx
  · rename_i t ht
    rw [ht] at h
    obtain ⟨u, hu, h⟩ := h.of_cons (by decide)
    obtain ⟨hline, hrest⟩ := h.restOfLine
    cases hx
    refine ⟨(restOfLine u).2, _, _, ?_, hrest, rfl, rfl⟩
    rw [command, hu, hline]
    rfl
  · rename_i t ht
    rw [ht] at h
    obtain ⟨u, hu, h⟩ := h.of_cons (by decide)
    rw [command, hu]
    apply sameCommand_bracket hS h.alike hx
  · rename_i t ht
    rw [ht] at h
    obtain ⟨u, hu, h⟩ := h.of_cons (by decide)
    cases hx
    refine ⟨skip (u.dropWhile (· == '*')), _, _, ?_, (h.dropWhile rfl).alike, skip_skip _,
      skip_skip _⟩
    rw [command, hu, h.takeWhile rfl]
    rfl
  · rename_i t ht
    rw [ht] at h
    obtain ⟨u, hu, h⟩ := h.of_cons (by decide)
    rw [command, hu]
    apply sameCommand_voice hS h.alike hx
  · rename_i t ht
    rw [ht] at h
    obtain ⟨u, hu, h⟩ := h.of_cons (by decide)
    cases hx
    refine ⟨skip u, _, _, ?_, h.alike, skip_skip _, skip_skip _⟩
    rw [command, hu]
    rfl
  · rename_i t ht
    rw [ht] at h
    obtain ⟨u, hu, h⟩ := h.of_cons (by decide)
    have h := h.dropWhile (p := isInlineFiller) rfl
    obtain ⟨hline, hrest⟩ := h.restOfLine
    cases hx
    refine ⟨(restOfLine (u.dropWhile isInlineFiller)).2, _, _, ?_, hrest, rfl, rfl⟩
    rw [command, hu, hline]
    rfl
  · rename_i t ht
    rw [ht] at h
    obtain ⟨u, hu, h⟩ := h.of_cons (by decide)
    rw [command, hu]
    apply sameCommand_note hS h.alike hx
  · cases hx

/-- What is said about the commands read from one text and what is read from the other holds of
texts that are alike, if it holds at the places that are related and stays true when the same
command stands in front. -/
theorem Alike.faithful {R : List Command → Except Obstacle (List Command) → Prop}
    (hcons : ∀ c cs o, R cs o → R (c :: cs) (o.map (c :: ·)))
    (hplace : ∀ x y, S x y → ∀ cs, commands x = .ok cs → R cs (commands y))
    (h : Alike S x y) {cs : List Command} (hx : commands x = .ok cs) :
  R cs (commands y)
  := by
  induction cs generalizing x y with
  | nil =>
    obtain h | ⟨x', y', h, hx', hy'⟩ := h.behindFiller
    · obtain ⟨hnil, -⟩ | ⟨c, r, ds, -, -, hcs⟩ := commands_eq_ok hx
      · rw [hnil] at h
        obtain ⟨hy, hend⟩ := h.of_nil
        rw [commands_nil hy, ← commands_nil (t := []) rfl]
        apply hplace [] [] hend _ (commands_nil rfl)
      · cases hcs
    · rw [commands_congr hy']
      rw [commands_congr hx'] at hx
      apply hplace x' y' h _ hx
  | cons c cs ih =>
    obtain h | ⟨x', y', h, hx', hy'⟩ := h.behindFiller
    · obtain ⟨-, hcs⟩ | ⟨d, r, ds, hcommand, hrest, hcs⟩ := commands_eq_ok hx
      · cases hcs
      · cases hcs
        obtain ⟨r', x', y', hcommand', h, hr, hr'⟩ := sameCommand_of_inLine hS h hcommand
        rw [commands_of_ok hcommand', commands_congr hr']
        rw [commands_congr hr] at hrest
        apply hcons
        apply ih h hrest
    · rw [commands_congr hy']
      rw [commands_congr hx'] at hx
      apply hplace x' y' h _ hx

end Commands

section Lines

variable {a b : Text} {cs : List Command}

theorem stop_nil :
  Stop []
  := by
  intro c hc
  cases hc

/-- A line that can be read is read before what follows it. -/
theorem commands_append (ha : endsLine a ∨ b = []) (h : commands a = .ok cs) :
  commands (a ++ b) = (commands b).map (cs ++ ·)
  := by
  obtain rfl | ha := ha.symm
  · rw [List.append_nil, h, commands_nil rfl]
    apply congrArg Except.ok (List.append_nil cs).symm
  let atEnd (x y : Text) : Prop := x = [] ∧ y = b
  have hstop : ∀ x y, atEnd x y → Stop x := by
    rintro x y ⟨rfl, -⟩
    apply stop_nil
  have halike : Alike atEnd (a ++ []) (a ++ b) := Alike.keep ha (Alike.place ⟨rfl, rfl⟩)
  rw [← List.append_nil a] at h
  apply halike.faithful (R := fun cs o => o = (commands b).map (cs ++ ·)) hstop _ _ h
  · rintro c ds o rfl
    cases commands b
    · rfl
    · rfl
  · rintro x y ⟨rfl, rfl⟩ ds hds
    rw [commands_nil rfl] at hds
    cases hds
    cases commands y
    · rfl
    · rfl

/-- If a line can be read only together with what follows it, a command goes on there. -/
theorem not_stop_of_commands_append (ha : endsLine a ∨ b = []) {o : Obstacle}
    (h : commands a = .error o) (hab : commands (a ++ b) = .ok cs) :
  ¬Stop b
  := by
  obtain rfl | ha := ha.symm
  · rw [List.append_nil, h] at hab
    cases hab
  intro hb
  let atStop (x y : Text) : Prop := x = b ∧ y = []
  have hstop : ∀ x y, atStop x y → Stop x := by
    rintro x y ⟨rfl, -⟩
    apply hb
  have halike : Alike atStop (a ++ b) (a ++ []) := Alike.keep ha (Alike.place ⟨rfl, rfl⟩)
  have hread : ∃ ds, commands (a ++ []) = .ok ds := by
    apply halike.faithful (R := fun _ o => ∃ ds, o = .ok ds) hstop _ _ hab
    · rintro c ds o ⟨es, rfl⟩
      exact ⟨c :: es, rfl⟩
    · rintro x y ⟨-, rfl⟩ ds -
      exact ⟨[], commands_nil rfl⟩
  obtain ⟨ds, hds⟩ := hread
  rw [List.append_nil, h] at hds
  cases hds

/-- A command starts with one of the characters that open one. -/
theorem opening_of_command {t r : Text} {c : Command} (h : command t = .ok (c, r)) :
  ∃ o u, skip t = o :: u ∧ o ∈ "~[*%|;(".toList
  := by
  rw [command] at h
  split at h
  · rename_i u hu
    exact ⟨_, u, hu, by decide⟩
  · rename_i u hu
    exact ⟨_, u, hu, by decide⟩
  · rename_i u hu
    exact ⟨_, u, hu, by decide⟩
  · rename_i u hu
    exact ⟨_, u, hu, by decide⟩
  · rename_i u hu
    exact ⟨_, u, hu, by decide⟩
  · rename_i u hu
    exact ⟨_, u, hu, by decide⟩
  · rename_i u hu
    exact ⟨_, u, hu, by decide⟩
  · cases h

/-- What starts with an opening, or is filler only, goes on no command. -/
theorem stop_of_commands (h : commands b = .ok cs) :
  Stop b
  := by
  intro c hc
  obtain ⟨hnil, -⟩ | ⟨d, r, ds, hcommand, -, -⟩ := commands_eq_ok h
  · rw [hnil] at hc
    cases hc
  · obtain ⟨o, u, hskip, ho⟩ := opening_of_command hcommand
    have hopening : "~[*%|;(".toList.all (isInner · == false) := by decide
    rw [hskip, List.head?_cons, Option.some_inj] at hc
    rw [← hc]
    apply eq_of_beq (List.all_eq_true.mp hopening o ho)

theorem Stop.append (h : Stop a) (hne : skip a ≠ []) (b : Text) :
  Stop (a ++ b)
  := by
  intro c hc
  rw [skip_append, if_neg hne, List.head?_append_of_ne_nil _ hne] at hc
  apply h c hc

/-- What goes on a command cannot be read by itself. -/
theorem commands_of_not_stop (h : ¬Stop b) :
  ∃ o, commands b = .error o
  := by
  cases hb : commands b with
  | ok cs => apply absurd (stop_of_commands hb) h
  | error o => exact ⟨o, rfl⟩

/-- Texts that are alike both go on a command or both do not. -/
theorem Alike.stop {S : Text → Text → Prop} (hS : ∀ x y, S x y → Stop x ∧ Stop y) {x y : Text}
    (h : Alike S x y) :
  Stop x ↔ Stop y
  := by
  obtain h | ⟨x', y', h, hx, hy⟩ := h.behindFiller
  · rw [Stop, Stop, h.head?_eq]
  · obtain ⟨hx', hy'⟩ := hS x' y' h
    rw [Stop, Stop, hx, hy]
    exact ⟨fun _ => hy', fun _ => hx'⟩

end Lines

end Score

end Tunescript
