import Mathlib.Tactic.Common
import Tunescript.Text.Basic

/-!
# The pieces of a text

A separator between two texts separates their pieces (`pieces_append`), and the pieces of a text up
to the one that a position lies in are those of the text up to the end of that piece
(`take_pieces`).  Blanks in front of a text change nothing about its words
(`words_append_of_blank`).
-/

namespace Tunescript.Text

variable {separator c : Char} {t p : Text}

theorem pieces_separator (t : Text) :
  pieces separator (separator :: t) = [] :: pieces separator t
  := by
  rw [pieces, if_pos rfl]

/-- Another character in front of a text goes in front of its first piece. -/
theorem pieces_cons (hc : c ≠ separator) (t : Text) :
  ∃ p ps, pieces separator t = p :: ps ∧ pieces separator (c :: t) = (c :: p) :: ps
  := by
  obtain ⟨p, ps, h⟩ := List.exists_cons_of_ne_nil (pieces_ne_nil separator t)
  use p, ps, h
  rw [pieces, if_neg hc, h]

theorem pieces_append (t u : Text) :
  pieces separator (t ++ separator :: u) = pieces separator t ++ pieces separator u
  := by
  induction t with
  | nil => apply pieces_separator
  | cons c t ih =>
    by_cases hc : c = separator
    · rw [hc, List.cons_append, pieces_separator, pieces_separator, ih, List.cons_append]
    · obtain ⟨p, ps, h, hcons⟩ := pieces_cons hc t
      obtain ⟨p', ps', h', hcons'⟩ := pieces_cons hc (t ++ separator :: u)
      rw [ih, h, List.cons_append, List.cons_eq_cons] at h'
      obtain ⟨rfl, rfl⟩ := h'
      rw [List.cons_append, hcons', hcons, List.cons_append]

theorem pieces_of_not_mem (ht : separator ∉ t) :
  pieces separator t = [t]
  := by
  induction t with
  | nil => rfl
  | cons c t ih =>
    rw [List.mem_cons, not_or] at ht
    obtain ⟨p, ps, h, hcons⟩ := pieces_cons (Ne.symm ht.1) t
    rw [ih ht.2] at h
    obtain ⟨⟩ := h
    apply hcons

/-- A text is made of its pieces with separators between them. -/
theorem intercalate_pieces (t : Text) :
  [separator].intercalate (pieces separator t) = t
  := by
  induction t with
  | nil => rfl
  | cons c t ih =>
    by_cases hc : c = separator
    · rw [hc, pieces_separator, List.intercalate_cons_of_ne_nil (pieces_ne_nil separator t), ih]
      rfl
    · obtain ⟨p, ps, h, hcons⟩ := pieces_cons hc t
      rw [hcons, List.intercalate_cons_cons_left, ← h, ih]

/-- A piece stands at the start of the text or behind a separator. -/
theorem exists_of_mem_pieces (h : p ∈ pieces separator t) :
  separator ∉ p ∧ ∃ a b, t = a ++ (p ++ b) ∧ (a = [] ∨ a.getLast? = some separator)
  := by
  induction hsize : t.length using Nat.strongRecOn generalizing t with
  | _ size ih =>
    by_cases ht : separator ∈ t
    · obtain ⟨u, v, rfl, hu⟩ := List.eq_append_cons_of_mem ht
      rw [pieces_append, pieces_of_not_mem hu, List.singleton_append, List.mem_cons] at h
      obtain rfl | h := h
      · exact ⟨hu, [], separator :: v, rfl, .inl rfl⟩
      · have hshorter : v.length < size := by
          rw [← hsize, List.length_append, List.length_cons]
          omega
        obtain ⟨hp, a, b, rfl, ha⟩ := ih _ hshorter h rfl
        refine ⟨hp, u ++ separator :: a, b, by simp, .inr ?_⟩
        obtain rfl | ha := ha
        · simp
        · simp [List.getLast?_cons, ha]
    · rw [pieces_of_not_mem ht, List.mem_singleton] at h
      exact ⟨h ▸ ht, [], [], by simp [h], .inl rfl⟩

/-- A piece has no character that the text does not have. -/
theorem not_mem_of_mem_pieces (hp : p ∈ pieces separator t) (hc : c ∉ t) :
  c ∉ p
  := by
  obtain ⟨-, a, b, rfl, -⟩ := exists_of_mem_pieces hp
  simp only [List.mem_append, not_or] at hc
  exact hc.2.1

/-- The pieces up to the one that a position lies in are those of the text up to its end. -/
theorem take_pieces (t u : Text) :
  (pieces separator (t ++ u)).take (t.count separator + 1) =
    pieces separator (t ++ u.takeWhile (· != separator))
  := by
  induction t with
  | nil =>
    induction u with
    | nil => rfl
    | cons c u ih =>
      by_cases hc : c = separator
      · simp [hc, pieces_separator, pieces]
      · obtain ⟨p, ps, h, hcons⟩ := pieces_cons hc u
        obtain ⟨p', ps', h', hcons'⟩ := pieces_cons hc (u.takeWhile (· != separator))
        simp only [List.nil_append, List.count_nil, Nat.zero_add, List.take_one] at ih ⊢
        rw [h, h', List.head?_cons, Option.toList_some, List.cons_eq_cons] at ih
        rw [hcons, List.takeWhile_cons_of_pos (by simpa using hc), hcons', ← ih.1, ← ih.2]
        rfl
  | cons c t ih =>
    by_cases hc : c = separator
    · rw [hc, List.count_cons_self, List.cons_append, List.cons_append, pieces_separator,
        pieces_separator, List.take_succ_cons, ih]
    · obtain ⟨p, ps, h, hcons⟩ := pieces_cons hc (t ++ u)
      obtain ⟨p', ps', h', hcons'⟩ := pieces_cons hc (t ++ u.takeWhile (· != separator))
      rw [h, List.take_succ_cons, h', List.cons_eq_cons] at ih
      rw [List.count_cons_of_ne hc, List.cons_append, List.cons_append, hcons, hcons',
        List.take_succ_cons, ih.1, ih.2]

theorem words_append_of_blank {b : Text} (hb : ∀ c ∈ b, isBlank c) (t : Text) :
  words (b ++ t) = words t
  := by
  induction b with
  | nil => rfl
  | cons c b ih =>
    rw [List.forall_mem_cons] at hb
    rw [List.cons_append, words.eq_def]
    dsimp only
    rw [if_pos hb.1, ih hb.2]

end Tunescript.Text
