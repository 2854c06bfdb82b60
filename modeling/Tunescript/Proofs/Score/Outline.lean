import Tunescript.Proofs.Score.Spans

/-!
# What a search for a note sees

The note and the pitch at a cursor are found by their parentheses, the dots behind them and the
first space: all other characters look alike.  The outline of a text makes them alike, and a text
has its notes and pitches where its outline has them (`noteAt?_outline`, `pitchAt?_outline`).  So a
part of a text in which there is none of these characters can be put in the place of another of the
same length without moving a note (`outline_splice`).
-/

namespace Tunescript.Score

/-- The characters that notes and pitches are found by. -/
def landmarks : List Char := [noteOpening, noteClosing, '+', ' ']

/-- The character as the search sees it: all that no note is found by look alike. -/
def seen (c : Char) : Char := if c ∈ landmarks then c else '.'

/-- The text as the search sees it. -/
def outline (t : Text) : Text := t.map seen

section Map

variable {f : Char → Char} {c : Char}

theorem indexOf?_map (hf : ∀ d, f d = c ↔ d = c) (t : Text) :
  Text.indexOf? c (t.map f) = Text.indexOf? c t
  := by
  rw [Text.indexOf?, Text.indexOf?, List.findIdx?_map]
  congr 1
  funext d
  simp [hf]

theorem openingDistance?_map (hopening : ∀ d, f d = noteOpening ↔ d = noteOpening)
    (hclosing : ∀ d, f d = noteClosing ↔ d = noteClosing) (limit : Nat) (first : Bool) (t : Text) :
  openingDistance? limit first (t.map f) = openingDistance? limit first t
  := by
  induction t generalizing limit first with
  | nil =>
    cases limit
    · rfl
    · rfl
  | cons c t ih =>
    cases limit with
    | zero => rfl
    | succ limit =>
      rw [List.map_cons, openingDistance?, openingDistance?, ih]
      simp only [hopening, hclosing]

end Map

theorem seen_eq_iff {m : Char} (hm : m ∈ landmarks) (c : Char) :
  seen c = m ↔ c = m
  := by
  have hdot : '.' ∉ landmarks := by
    decide
  rw [seen]
  split
  · rfl
  · rename_i hc
    constructor
    · rintro rfl
      cases hdot hm
    · rintro rfl
      cases hc hm

@[simp]
theorem length_outline (t : Text) :
  (outline t).length = t.length
  := List.length_map _

theorem indexOf?_outline {m : Char} (hm : m ∈ landmarks) (t : Text) :
  Text.indexOf? m (outline t) = Text.indexOf? m t
  := indexOf?_map (seen_eq_iff hm) t

theorem drop_outline (t : Text) (n : Nat) :
  (outline t).drop n = outline (t.drop n)
  := List.map_drop.symm

theorem take_outline (t : Text) (n : Nat) :
  (outline t).take n = outline (t.take n)
  := List.map_take.symm

theorem noteFrom?_outline (t : Text) (start : Nat) :
  noteFrom? (outline t) start = noteFrom? t start
  := by
  have hdots (u : Text) : ((outline u).takeWhile (· == '+')).length =
      (u.takeWhile (· == '+')).length := by
    rw [outline, List.takeWhile_map, List.length_map]
    congr 2
    funext c
    simp [seen_eq_iff (m := '+') (by decide)]
  rw [noteFrom?, noteFrom?, drop_outline, take_outline, indexOf?_outline (by decide)]
  simp only [drop_outline, hdots]

/-- A text has its notes where its outline has them. -/
theorem noteAt?_outline (t : Text) (cursor : Int) :
  noteAt? (outline t) cursor = noteAt? t cursor
  := by
  have hopening (limit : Nat) (first : Bool) (u : Text) :
      openingDistance? limit first (outline u).reverse =
        openingDistance? limit first u.reverse := by
    rw [outline, ← List.map_reverse]
    apply openingDistance?_map (seen_eq_iff (by decide)) (seen_eq_iff (by decide))
  simp only [noteAt?, length_outline, take_outline, hopening, noteFrom?_outline]

/-- A text has its pitches where its outline has them. -/
theorem pitchAt?_outline (t : Text) (cursor : Int) :
  pitchAt? (outline t) cursor = pitchAt? t cursor
  := by
  rw [pitchAt?, pitchAt?, noteAt?_outline]
  simp only [take_outline, drop_outline, indexOf?_outline (m := ' ') (by decide)]

theorem outline_append (t u : Text) :
  outline (t ++ u) = outline t ++ outline u
  := List.map_append

theorem outline_of_not_landmarks {t : Text} (h : ∀ c ∈ t, c ∉ landmarks) :
  outline t = List.replicate t.length '.'
  := by
  rw [outline, List.map_congr_left (g := fun _ => '.')]
  · apply List.map_const'
  · intro c hc
    rw [seen, if_neg (h c hc)]

/-- Texts of one length without landmarks can be put in each other's place. -/
theorem outline_splice {u v : Text} (hu : ∀ c ∈ u, c ∉ landmarks) (hv : ∀ c ∈ v, c ∉ landmarks)
    (hlength : u.length = v.length) (a b : Text) :
  outline (a ++ u ++ b) = outline (a ++ v ++ b)
  := by
  rw [outline_append, outline_append, outline_append, outline_append, outline_of_not_landmarks hu,
    outline_of_not_landmarks hv, hlength]

end Tunescript.Score
