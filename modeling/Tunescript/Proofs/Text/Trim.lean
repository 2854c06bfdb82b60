import Mathlib.Data.List.DropRight
import Mathlib.Data.List.Infix
import Mathlib.Tactic.Common
import Tunescript.Text.Basic

/-!
# Trimmed texts

A text is trimmed if it neither starts nor ends with a blank.  Trimming yields such a text
(`trimmed_trim`) and changes nothing about one (`Trimmed.trim_eq`); what has no blanks is found in a
text exactly if it is found in the trimmed one (`infix_trim_iff`).
-/

namespace Tunescript.Text

/-- The text neither starts nor ends with a blank. -/
structure Trimmed (t : Text) : Prop where
  /-- It does not start with a blank. -/
  head : ∀ c, t.head? = some c → isBlank c = false
  /-- It does not end with a blank. -/
  last : ∀ c, t.getLast? = some c → isBlank c = false

theorem trimEnd_eq (t : Text) :
  trimEnd t = t.rdropWhile isBlank
  := rfl

theorem trimEnd_prefix_self (t : Text) :
  trimEnd t <+: t
  := List.rdropWhile_prefix _ _

theorem trimEnd_append_of_blank (t : Text) {u : Text} (hu : ∀ c ∈ u, isBlank c) :
  trimEnd (t ++ u) = trimEnd t
  := by
  rw [trimEnd, trimEnd, dropEndWhile, dropEndWhile, List.reverse_append,
    List.dropWhile_append_of_pos]
  intro c hc
  apply hu c (List.mem_reverse.mp hc)

theorem trimEnd_append (t : Text) {u : Text} (hu : trimEnd u ≠ []) :
  trimEnd (t ++ u) = t ++ trimEnd u
  := by
  have hne : ¬(u.reverse.dropWhile isBlank).isEmpty := by
    intro hempty
    apply hu
    rw [trimEnd, dropEndWhile, List.isEmpty_iff.mp hempty]
    rfl
  rw [trimEnd, trimEnd, dropEndWhile, dropEndWhile, List.reverse_append, List.dropWhile_append,
    if_neg hne, List.reverse_append, List.reverse_reverse]

theorem trimEnd_append_of_trimmed {t : Text} (ht : trimEnd t = t) (u : Text) :
  trimEnd (t ++ u) = t ++ trimEnd u
  := by
  by_cases hu : trimEnd u = []
  · rw [trimEnd_append_of_blank, ht, hu, List.append_nil]
    apply List.rdropWhile_eq_nil_iff.mp hu
  · apply trimEnd_append t hu

theorem trimEnd_eq_self {t : Text} (h : ∀ c, t.getLast? = some c → isBlank c = false) :
  trimEnd t = t
  := by
  rw [trimEnd_eq, List.rdropWhile_eq_self_iff]
  intro hne
  rw [h _ (List.getLast?_eq_some_getLast hne)]
  apply Bool.false_ne_true

theorem getLast?_trimEnd {t : Text} {c : Char} (h : (trimEnd t).getLast? = some c) :
  isBlank c = false
  := by
  have hne : trimEnd t ≠ [] := by
    intro hnil
    rw [hnil] at h
    cases h
  have hlast := List.rdropWhile_last_not isBlank t hne
  rw [List.getLast?_eq_some_getLast hne] at h
  cases h
  apply Bool.not_eq_true _ |>.mp hlast

theorem trimStart_eq_self {t : Text} (h : ∀ c, t.head? = some c → isBlank c = false) :
  trimStart t = t
  := by
  cases t with
  | nil => rfl
  | cons c t => simp [trimStart, h c rfl]

theorem head?_trimStart {t : Text} {c : Char} (h : (trimStart t).head? = some c) :
  isBlank c = false
  := by
  have hnot := List.head?_dropWhile_not isBlank t
  rw [trimStart] at h
  rw [h] at hnot
  apply Bool.not_eq_true _ |>.mp
  simpa using hnot

theorem Trimmed.trim_eq {t : Text} (h : Trimmed t) :
  trim t = t
  := by
  rw [trim, trimStart_eq_self h.head, trimEnd_eq_self h.last]

/-- Nothing is left of a text that is trimmed exactly if all its characters are blanks. -/
theorem isEmpty_trim (t : Text) :
  (trim t).isEmpty = t.all isBlank
  := by
  induction t with
  | nil => rfl
  | cons c t ih =>
    by_cases hc : isBlank c
    · rw [trim, trimStart, List.dropWhile_cons_of_pos hc, List.all_cons, hc, Bool.true_and, ← ih]
      rfl
    · have hend : trimEnd (c :: t) ≠ [] := by
        rw [trimEnd_eq, ne_eq, List.rdropWhile_eq_nil_iff]
        intro hall
        apply hc (hall c List.mem_cons_self)
      rw [trim, trimStart, List.dropWhile_cons_of_neg hc, List.all_cons,
        List.isEmpty_eq_false_iff.mpr hend, Bool.eq_false_iff.mpr hc, Bool.false_and]

theorem head?_trim (t : Text) :
  (trim t).head? = (trimStart t).head?
  := by
  obtain ⟨u, hu⟩ := trimEnd_prefix_self (trimStart t)
  cases htrim : trim t with
  | nil =>
    have hblank := isEmpty_trim t
    rw [htrim] at hblank
    rw [trimStart, List.dropWhile_eq_nil_iff.mpr (List.all_eq_true.mp hblank.symm)]
  | cons c v =>
    rw [← trim, htrim] at hu
    rw [← hu]
    rfl

theorem trimmed_trim (t : Text) :
  Trimmed (trim t)
  := by
  constructor
  · intro c hc
    rw [head?_trim] at hc
    apply head?_trimStart hc
  · intro c hc
    apply getLast?_trimEnd hc

theorem mem_of_mem_trim {t : Text} {c : Char} (h : c ∈ trim t) :
  c ∈ t
  := by
  apply (List.dropWhile_suffix isBlank).subset
  apply (trimEnd_prefix_self (trimStart t)).subset h

theorem infix_trimStart_iff {p : Text} (hp : ∀ c ∈ p, isBlank c = false) (t : Text) :
  p <:+: trimStart t ↔ p <:+: t
  := by
  induction t with
  | nil => rfl
  | cons c t ih =>
    by_cases hc : isBlank c
    · rw [trimStart, List.dropWhile_cons_of_pos hc, ← trimStart, ih, List.infix_cons_iff]
      constructor
      · apply Or.inr
      · rintro (hhead | htail)
        · cases p with
          | nil => apply List.nil_infix
          | cons d p =>
            obtain ⟨rfl, -⟩ := List.cons_prefix_cons.mp hhead
            rw [hp d List.mem_cons_self] at hc
            cases hc
        · apply htail
    · rw [trimStart, List.dropWhile_cons_of_neg hc]

/-- What has no blanks occurs in a text exactly if it still does when this is trimmed. -/
theorem infix_trim_iff {p : Text} (hp : ∀ c ∈ p, isBlank c = false) (t : Text) :
  p <:+: trim t ↔ p <:+: t
  := by
  have hreverse : ∀ c ∈ p.reverse, isBlank c = false := by
    intro c hc
    apply hp c (List.mem_reverse.mp hc)
  rw [← infix_trimStart_iff hp t, ← List.reverse_infix, trim, trimEnd, dropEndWhile,
    List.reverse_reverse, ← trimStart, infix_trimStart_iff hreverse, List.reverse_infix]

theorem mem_trim_iff {c : Char} (hc : isBlank c = false) (t : Text) :
  c ∈ trim t ↔ c ∈ t
  := by
  rw [← List.singleton_infix_iff, infix_trim_iff, List.singleton_infix_iff]
  intro d hd
  rw [List.mem_singleton.mp hd, hc]

theorem occursIn_iff {p t : Text} :
  occursIn p t ↔ p <:+: t
  := by
  induction t with
  | nil => rw [occursIn, List.isEmpty_iff, List.infix_nil]
  | cons c t ih =>
    rw [occursIn, Bool.or_eq_true, List.isPrefixOf_iff_prefix, ih, List.infix_cons_iff]

end Tunescript.Text
