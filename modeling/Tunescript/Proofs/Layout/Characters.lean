import Tunescript.Proofs.Layout.Drawn
import Tunescript.Proofs.Score.Tokens

/-!
# The characters of a formatted score

The noun of a command stands in the score (`Score.noun_subset_of_commands`), and what else is
written for the command consists of letters, digits, marks and spaces.  So formatting puts no
control character into a score (`mem_of_mem_format`).
-/

namespace Tunescript

namespace Score

variable {r p t : Text} {c : Command} {cs : List Command} {ps : List Phrase}

/-- The noun of a command stands in the text that spells it. -/
theorem Spells.noun_subset (h : Spells r p c) :
  c.noun ⊆ p
  := by
  intro x hx
  cases h with
  | comment => simp [Text.mem_of_mem_trim hx]
  | tempo => simp [hx]
  | time => simp [hx]
  | checkpoint => simp [hx]
  | voice => simp [hx]
  | measure =>
    rw [List.mem_singleton] at hx
    simp [hx]
  | @reset w line e =>
    have hline : x ∈ line := (List.dropWhile_suffix _).subset (Text.mem_of_mem_trim hx)
    simp [hline]
  | note =>
    rw [List.mem_append, List.mem_append] at hx
    obtain (hx | hx) | hx := hx
    · simp [hx]
    · simp [hx]
    · simp [hx]

theorem Spelled.phrase_subset (h : Spelled ps t) {p : Phrase} (hp : p ∈ ps) :
  p.text ⊆ t
  := by
  induction h with
  | filler => cases hp
  | phrase hq h ih =>
    obtain rfl | hp := List.mem_cons.mp hp
    · apply List.subset_append_left
    · intro x hx
      apply List.mem_append_right _ (ih hp hx)

/-- The nouns of the commands of a score stand in the score. -/
theorem noun_subset_of_commands (h : commands t = .ok cs) (hc : c ∈ cs) :
  c.noun ⊆ t
  := by
  obtain ⟨ps, hps, -, rfl⟩ := spelled_of_commands h
  obtain ⟨p, hp, rfl⟩ := List.mem_map.mp hc
  obtain ⟨r, hspells⟩ := hps.exists_spells hp
  intro x hx
  apply hps.phrase_subset hp (hspells.noun_subset hx)

end Score

namespace Layout

open Score

/-- Whether a character only controls how the others are shown. -/
def isControl (x : Char) : Bool := x < ' '

variable {x : Char} {c : Command} {cs : List Command} {w : Text}

theorem isControl_mark (verb : Verb) :
  isControl (mark verb) = false
  := by
  cases verb <;> rfl

theorem isControl_of_isInner (h : isInner x) :
  isControl x = false
  := by
  have hlow := (isInner_bounds h).1
  rw [isControl, decide_eq_false_iff_not, Char.not_lt, Char.le_def, UInt32.le_iff_toNat_le]
  have hspace : ' '.val.toNat = 32 := rfl
  have hval : x.val.toNat = x.toNat := rfl
  omega

/-- A control character in the text of a command stands in its noun. -/
theorem mem_noun_of_mem_core (hc : c.Shaped) (hcontrol : isControl x) (hx : x ∈ core c) :
  x ∈ c.noun
  := by
  have hmark : x ≠ mark c.verb := by
    rintro rfl
    rw [isControl_mark] at hcontrol
    cases hcontrol
  have hspace : x ≠ ' ' := by
    rintro rfl
    cases hcontrol
  cases hremark : c.verb.isRemark with
  | false =>
    exfalso
    obtain h | h | hinner | rfl := mem_core hc hremark hx
    · apply hmark h
    · apply hspace h
    · rw [isControl_of_isInner hinner] at hcontrol
      cases hcontrol
    · cases hcontrol
  | true =>
    obtain ⟨space, rfl | rfl, hcore⟩ := core_remark hremark
    · simpa [hcore, hmark] using hx
    · simpa [hcore, hmark, hspace] using hx

/-- A control character in what is written for commands stands in the noun of one of them. -/
theorem Written.exists_noun (h : Written cs w) (hcs : ∀ c ∈ cs, c.Shaped) (hcontrol : isControl x)
    (hx : x ∈ w) :
  ∃ c ∈ cs, x ∈ c.noun
  := by
  induction h with
  | nil => cases hx
  | @cons c cs gap w hgap hstar hlast h ih =>
    obtain ⟨hc, hcs⟩ := List.forall_mem_cons.mp hcs
    rw [List.mem_append, List.mem_append] at hx
    obtain hx | hx | hx := hx
    · exact ⟨c, List.mem_cons_self, mem_noun_of_mem_core hc hcontrol hx⟩
    · exfalso
      obtain rfl | rfl := hgap x hx
      · cases hcontrol
      · cases hcontrol
    · obtain ⟨d, hd, hx⟩ := ih hcs hx
      exact ⟨d, List.mem_cons_of_mem _ hd, hx⟩

theorem lineEndOf_subset (line : Text) :
  lineEndOf line ⊆ line
  := by
  intro x hx
  rw [lineEndOf] at hx
  split at hx
  · rename_i hend
    rw [List.mem_singleton.mp hx]
    apply Text.mem_of_endsLine hend
  · cases hx

/-- A control character in what stands in the place of a line stands in the line. -/
theorem Drawn.mem_line {width : Nat} {line d : Text} (h : Drawn width line d) (hline : IsLine line)
    (hcontrol : isControl x) (hx : x ∈ d) :
  x ∈ line
  := by
  cases h with
  | same => exact hx
  | stars =>
    obtain hx | hx := List.mem_append.mp hx
    · obtain rfl := List.eq_of_mem_replicate hx
      cases hcontrol
    · apply lineEndOf_subset line hx
  | @written w cs hcs hhead h =>
    obtain hx | hx := List.mem_append.mp hx
    · have hshaped := (shapedLine_of_commands hline hcs).shaped
      obtain ⟨c, hc, hx⟩ := h.exists_noun hshaped hcontrol hx
      apply noun_subset_of_commands hcs hc hx
    · apply lineEndOf_subset line hx

theorem mem_flatten_of_drawn {width : Nat} {ls ds : List Text} (hlines : ∀ l ∈ ls, IsLine l)
    (h : List.Forall₂ (Drawn width) ls ds) (hcontrol : isControl x) (hx : x ∈ ds.flatten) :
  x ∈ ls.flatten
  := by
  induction h with
  | nil => cases hx
  | cons hd h ih =>
    obtain ⟨hline, hlines⟩ := List.forall_mem_cons.mp hlines
    rw [List.flatten_cons, List.mem_append] at hx ⊢
    obtain hx | hx := hx
    · apply Or.inl (hd.mem_line hline hcontrol hx)
    · apply Or.inr (ih hlines hx)

/-- A control character in a formatted score stands in the score. -/
theorem mem_of_mem_format [Memory] {t f : Text} (h : format t = .ok f) (hcontrol : isControl x)
    (hx : x ∈ f) :
  x ∈ t
  := by
  obtain ⟨fs, -, rfl, hdrawn⟩ := formatIn_eq_ok h
  rw [← Text.flatten_lines t]
  apply mem_flatten_of_drawn (isLine_of_lines (Text.lines_lines t)) hdrawn hcontrol hx

end Layout

end Tunescript
