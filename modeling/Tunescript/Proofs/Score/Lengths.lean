import Tunescript.Proofs.Number.AtLeastOne
import Tunescript.Proofs.Number.Digits
import Tunescript.Proofs.Text.Pieces
import Tunescript.Score.Length

/-!
# Lengths as they are played and as they are laid out

The length of a note is read to be played and counted in quarter notes to be laid out.  A length
that is read takes the quarter notes that it says (`quarters_of_read`), and what cannot be read
takes none, for each side of the fraction is missing, zero, or at least one (`Side`), and no length
vanishes on the way (`atLeastOne_valueOf`).  The one exception is a fraction without a denominator,
which is laid out as if that were one (`lengthsAgree_iff`).
-/

namespace Tunescript.NoteLength

open Binary64 (AtLeastOne IsNumber)
open Score (dot isFractionChar isLengthText)

variable {noun above below : Text}

/-- Dots behind a fraction are taken off. -/
theorem undotted_append {length dots : Text} (hlength : ∀ c ∈ length, isFractionChar c)
    (hdots : ∀ c ∈ dots, c = dot) :
  undotted (length ++ dots) = length ∧ List.replicate ((length ++ dots).count dot) dot = dots
  := by
  have hnot : ∀ c ∈ length, c ≠ dot := by
    rintro c hc rfl
    cases hlength dot hc
  constructor
  · rw [undotted, Text.erasing, List.filter_append]
    have hkept : length.filter (· != dot) = length := by
      apply List.filter_eq_self.mpr
      intro c hc
      apply bne_iff_ne.mpr (hnot c hc)
    have hgone : dots.filter (· != dot) = [] := by
      apply List.filter_eq_nil_iff.mpr
      intro c hc
      rw [hdots c hc]
      decide
    rw [hkept, hgone, List.append_nil]
  · have hzero : length.count dot = 0 := by
      apply List.count_eq_zero.mpr
      intro hmem
      apply hnot dot hmem rfl
    have hall : dots.count dot = dots.length := by
      apply List.count_eq_length.mpr
      intro c hc
      rw [hdots c hc]
    rw [List.count_append, hzero, hall, Nat.zero_add]
    symm
    apply List.eq_replicate_of_mem hdots

/-- A length that can be read is laid out by its fraction and its dots. -/
theorem quarters_of_read {α : Type} [Scalar α] {length : NoteLength α}
    (h : read noun = .ok length) :
  (quarters noun : α) = length.numerator / length.denominator * dotFactor length.dots *
    Scalar.ofInt 4
  := by
  rw [read] at h
  rw [quarters]
  split at h
  · cases habove : (quantity? _ : Option α) with
    | none =>
      rw [habove] at h
      cases h
    | some n =>
      rw [habove] at h
      dsimp only at h
      cases hbelow : (quantity? _ : Option α) with
      | none =>
        rw [hbelow] at h
        cases h
      | some d =>
        rw [hbelow] at h
        dsimp only at h ⊢
        split at h
        · cases h
        · rename_i hzero
          cases h
          rw [Option.getD_some, if_neg hzero]
          rfl
  · cases h

section Sides

/-- The quantity that a text of digits writes: none if there are no digits, zero, or at least
one. -/
inductive Side (p : Text) : Option Float → Prop
  /-- There is no digit. -/
  | missing (hp : p = []) : Side p none
  /-- All digits are zero. -/
  | zero (hne : p ≠ []) (hp : ∀ c ∈ p, c = '0') : Side p (some Scalar.zero)
  /-- Some digit is not zero. -/
  | positive {x : Float} (hp : ∃ c ∈ p, c ≠ '0') (hx : AtLeastOne x) : Side p (some x)

theorem side_of_digits {p : Text} (hp : ∀ c ∈ p, c.isDigit) :
  Side p (quantity? p)
  := by
  by_cases hne : p = []
  · rw [hne]
    exact .missing rfl
  · have hread : (quantity? p : Option Float) =
        some (Binary64.ofNumeral (.finite false (Numeral.whole p) 0)) := by
      rw [quantity?, Numeral.read?_of_digits hne hp]
      rfl
    rw [hread]
    by_cases hzero : Numeral.whole p = 0
    · rw [hzero]
      exact .zero hne ((Numeral.whole_eq_zero_iff hp).mp hzero)
    · apply Side.positive
      · rw [Numeral.whole_eq_zero_iff hp] at hzero
        push Not at hzero
        exact hzero
      · apply Binary64.atLeastOne_ofNumeral hzero

end Sides

section Agreement

/-- The quarter notes of a fraction with dots. -/
def valueOf (n d : Float) (dots : Nat) : Float := n / d * dotFactor dots * Scalar.ofInt 4

/-- A fraction of nothing has no length. -/
theorem valueOf_zero {d : Float} (hd : AtLeastOne d) (dots : Nat) :
  valueOf Scalar.zero d dots = Scalar.zero
  := by
  obtain ⟨hfactor, hnumber⟩ := Binary64.atLeastOne_two_sub_powerOfTwo dots
  have hproduct := Binary64.zero_mul hfactor hnumber
  have hquotient := Binary64.zero_div hd
  have hfour : Float.ofInt 0 * Float.ofInt 4 = Float.ofInt 0 := rfl
  change Float.ofInt 0 / d * (Float.ofInt 2 - Binary64.powerOfTwo (-(dots : Int))) *
    Float.ofInt 4 = Float.ofInt 0
  rw [hquotient, hproduct, hfour]

/-- With a numerator that is at least one, one as the denominator gives a length. -/
theorem atLeastOne_valueOf {n : Float} (hn : AtLeastOne n) (dots : Nat) :
  AtLeastOne (valueOf n (Scalar.ofInt 1) dots)
  := by
  have hfactor := (Binary64.atLeastOne_two_sub_powerOfTwo dots).1
  have hfour : AtLeastOne (Float.ofInt 4) := .inr ⟨_, _, _, rfl, by decide, by decide, by decide⟩
  exact (hn.div_one.mul hfactor).mul hfour

/-- The fraction has a numerator that is not zero and no denominator. -/
def Unfinished (noun : Text) : Prop :=
  ∃ above dots, noun = above ++ '/' :: dots ∧ (∀ c ∈ above, c.isDigit) ∧ (∃ c ∈ above, c ≠ '0') ∧
    ∀ c ∈ dots, c = dot

/-- How a length that can be written in a note is read and laid out. -/
inductive Reading (noun : Text) : Prop
  /-- It is a fraction, which is read. -/
  | fraction {length : NoteLength Float} (hread : read noun = .ok length)
    (hfinished : ¬Unfinished noun)
  /-- It is no fraction, and it has no length. -/
  | nothing {e : LengthError}
    (hread : (read noun : Except LengthError (NoteLength Float)) = .error e)
    (hquarters : (quarters noun : Float) = Scalar.zero) (hfinished : ¬Unfinished noun)
  /-- It is no fraction, and yet it has a length. -/
  | unfinished {e : LengthError}
    (hread : (read noun : Except LengthError (NoteLength Float)) = .error e)
    (hquarters : AtLeastOne (quarters noun : Float)) (hunfinished : Unfinished noun)

theorem digits_of_mem_pieces (h : isLengthText noun) {p : Text}
    (hp : p ∈ Text.pieces '/' (undotted noun)) :
  ∀ c ∈ p, c.isDigit
  := by
  obtain ⟨length, dots, rfl, -, hlength, hdots⟩ := Score.exists_of_isLengthText h
  rw [(undotted_append hlength hdots).1] at hp
  obtain ⟨hslash, a, b, rfl, -⟩ := Text.exists_of_mem_pieces hp
  intro c hc
  have hchar : isFractionChar c := hlength c (by simp [hc])
  rw [isFractionChar, Bool.or_eq_true, beq_iff_eq] at hchar
  obtain hdigit | rfl := hchar
  · exact hdigit
  · cases hslash hc

/-- The sides of a fraction with dots behind it. -/
theorem pieces_fraction {dots : Text} (habove : ∀ c ∈ above, c.isDigit)
    (hbelow : ∀ c ∈ below, c.isDigit) (hdots : ∀ c ∈ dots, c = dot) :
  Text.pieces '/' (undotted (above ++ '/' :: below ++ dots)) = [above, below]
  := by
  have hslash {t : Text} (ht : ∀ c ∈ t, c.isDigit) : '/' ∉ t := by
    intro hmem
    cases ht '/' hmem
  have hlength : ∀ c ∈ above ++ '/' :: below, isFractionChar c := by
    intro c hc
    obtain hc | hc := List.mem_append.mp hc
    · apply Score.isFractionChar_of_isDigit c (habove c hc)
    · obtain rfl | hc := List.mem_cons.mp hc
      · rfl
      · apply Score.isFractionChar_of_isDigit c (hbelow c hc)
  rw [(undotted_append hlength hdots).1, Text.pieces_append, Text.pieces_of_not_mem (hslash habove),
    Text.pieces_of_not_mem (hslash hbelow)]
  rfl

theorem pieces_unfinished {dots : Text} (habove : ∀ c ∈ above, c.isDigit)
    (hdots : ∀ c ∈ dots, c = dot) :
  Text.pieces '/' (undotted (above ++ '/' :: dots)) = [above, []]
  := by
  have hpieces := pieces_fraction habove (List.forall_mem_nil _) hdots
  rw [List.append_assoc] at hpieces
  exact hpieces

/-- An unfinished fraction has two sides, and nothing stands below. -/
theorem unfinished_iff (h : isLengthText noun) :
  Unfinished noun ↔ ∃ above, Text.pieces '/' (undotted noun) = [above, []] ∧ ∃ c ∈ above, c ≠ '0'
  := by
  constructor
  · rintro ⟨above, dots, rfl, habove, hnonzero, hdots⟩
    use above
    exact ⟨pieces_unfinished habove hdots, hnonzero⟩
  · rintro ⟨above, hpieces, hnonzero⟩
    have habove := digits_of_mem_pieces h (p := above) (by simp [hpieces])
    obtain ⟨length, dots, rfl, -, hlength, hdots⟩ := Score.exists_of_isLengthText h
    rw [(undotted_append hlength hdots).1] at hpieces
    have hjoined := @Text.intercalate_pieces '/' length
    rw [hpieces] at hjoined
    refine ⟨above, dots, ?_, habove, hnonzero, hdots⟩
    rw [← hjoined]
    simp

/-- A fraction without two sides cannot be read, and it has no length. -/
theorem read_of_not_pair (h : ∀ above below, Text.pieces '/' (undotted noun) ≠ [above, below]) :
  (read noun : Except LengthError (NoteLength Float)) = .error (.notFraction noun) ∧
    (quarters noun : Float) = Scalar.zero
  := by
  constructor
  · rw [read]
    split
    · rename_i hpieces
      cases h _ _ hpieces
    · rfl
  · rw [quarters]
    split
    · rename_i hpieces
      cases h _ _ hpieces
    · rfl

section Pair

variable {n d : Option Float} (hpieces : Text.pieces '/' (undotted noun) = [above, below])
  (hn : quantity? above = n) (hd : quantity? below = d)

include hpieces hn hd

theorem read_of_pair :
  read noun =
    match n, d with
    | none, _ => .error (.notNumeral above)
    | some _, none => .error (.notNumeral below)
    | some n, some d =>
      if Scalar.isZero d then .error (.zeroDenominator noun) else .ok ⟨n, d, noun.count dot⟩
  := by
  rw [read, hpieces]
  dsimp only
  rw [hn, hd]
  cases n with
  | none => rfl
  | some n =>
    cases d with
    | none => rfl
    | some d => rfl

theorem quarters_of_pair :
  quarters noun =
    if Scalar.isZero (d.getD (Scalar.ofInt 1)) then Scalar.zero
    else valueOf (n.getD Scalar.zero) (d.getD (Scalar.ofInt 1)) (noun.count dot)
  := by
  rw [quarters, hpieces]
  dsimp only
  rw [hn, hd]
  rfl

end Pair

/-- Whatever can be written as the length of a note is read and laid out in one of three ways. -/
theorem reading_of_lengthText (h : isLengthText noun) :
  Reading noun
  := by
  by_cases hpair : ∃ above below, Text.pieces '/' (undotted noun) = [above, below]
  · obtain ⟨above, below, hpieces⟩ := hpair
    have habove := side_of_digits (digits_of_mem_pieces h (p := above) (by simp [hpieces]))
    have hbelow := side_of_digits (digits_of_mem_pieces h (p := below) (by simp [hpieces]))
    have hunfinished : Unfinished noun ↔ below = [] ∧ ∃ c ∈ above, c ≠ '0' := by
      rw [unfinished_iff h, hpieces]
      simp [and_comm]
    have hread := read_of_pair hpieces rfl rfl
    have hquarters := quarters_of_pair hpieces rfl rfl
    generalize (quantity? above : Option Float) = n at habove hread hquarters
    generalize (quantity? below : Option Float) = d at hbelow hread hquarters
    have hnothing (hzero : ∀ c ∈ above, c = '0') : ¬Unfinished noun := by
      rw [hunfinished]
      rintro ⟨-, c, hc, hne⟩
      exact hne (hzero c hc)
    have hbelow' (hne : below ≠ []) : ¬Unfinished noun := by
      rw [hunfinished]
      rintro ⟨hnil, -⟩
      exact hne hnil
    have hone : AtLeastOne (Scalar.ofInt 1) := .inr ⟨_, _, _, rfl, by decide, by decide, by decide⟩
    cases hbelow with
    | missing hnil =>
      rw [Option.getD_none, if_neg (ne_true_of_eq_false hone.isZero_eq_false)] at hquarters
      cases habove with
      | missing hnil' =>
        have hzero : ∀ c ∈ above, c = '0' := by simp [hnil']
        exact .nothing hread (hquarters.trans (valueOf_zero hone _)) (hnothing hzero)
      | zero hne hzero =>
        exact .nothing hread (hquarters.trans (valueOf_zero hone _)) (hnothing hzero)
      | positive hnonzero hx =>
        have hvalue := atLeastOne_valueOf hx (noun.count dot)
        rw [Option.getD_some] at hquarters
        rw [← hquarters] at hvalue
        exact .unfinished hread hvalue (hunfinished.mpr ⟨hnil, hnonzero⟩)
    | zero hne hzero =>
      have hquarters' : (quarters noun : Float) = Scalar.zero := hquarters.trans (if_pos rfl)
      cases n with
      | none => exact .nothing hread hquarters' (hbelow' hne)
      | some n => exact .nothing (hread.trans (if_pos rfl)) hquarters' (hbelow' hne)
    | positive hnonzero hx =>
      have hne : below ≠ [] := by
        obtain ⟨c, hc, -⟩ := hnonzero
        exact List.ne_nil_of_mem hc
      have hnot := ne_true_of_eq_false hx.isZero_eq_false
      cases habove with
      | missing hnil =>
        rw [Option.getD_some, if_neg hnot] at hquarters
        exact .nothing hread (hquarters.trans (valueOf_zero hx _)) (hbelow' hne)
      | zero => exact .fraction (hread.trans (if_neg hnot)) (hbelow' hne)
      | positive => exact .fraction (hread.trans (if_neg hnot)) (hbelow' hne)
  · push Not at hpair
    obtain ⟨hread, hquarters⟩ := read_of_not_pair hpair
    apply Reading.nothing hread hquarters
    rw [unfinished_iff h]
    rintro ⟨above, hpieces, -⟩
    exact hpair above [] hpieces

/-- The length in quarter notes is that of the fraction and the dots that are read, and zero if none
are. -/
structure LengthsAgree (noun : Text) : Prop where
  /-- A length that is read is the one in quarter notes. -/
  ok : ∀ length : NoteLength Float, read noun = .ok length →
    quarters noun = length.numerator / length.denominator * dotFactor length.dots * Scalar.ofInt 4
  /-- What cannot be read has no length. -/
  error : ∀ e, (read noun : Except LengthError (NoteLength Float)) = .error e →
    Scalar.isZero (quarters noun : Float)

/-- Whatever can be written as the length of a note is laid out as it is read, except for a fraction
that has a numerator other than zero and no denominator.  Such a fraction cannot be read, and it is
laid out with the denominator one. -/
theorem lengthsAgree_iff (h : isLengthText noun) :
  (LengthsAgree noun ↔ ¬Unfinished noun) ∧
    ∀ above dots, noun = above ++ '/' :: dots → (∀ c ∈ above, c.isDigit) → (∀ c ∈ dots, c = dot) →
      (quarters noun : Float) = quarters (above ++ "/1".toList ++ dots)
  := by
  constructor
  · constructor
    · intro hagree hunfinished
      cases reading_of_lengthText h with
      | fraction hread hfinished => exact hfinished hunfinished
      | nothing hread hquarters hfinished => exact hfinished hunfinished
      | unfinished hread hquarters =>
        have hzero := hagree.error _ hread
        rw [hquarters.isZero_eq_false] at hzero
        cases hzero
    · intro hfinished
      constructor
      · intro length hread
        apply quarters_of_read hread
      · intro e hread
        cases reading_of_lengthText h with
        | fraction hread' =>
          rw [hread'] at hread
          cases hread
        | nothing hread' hquarters =>
          rw [hquarters]
          rfl
        | unfinished hread' hquarters hunfinished => cases hfinished hunfinished
  · rintro above dots rfl habove hdots
    have hmissing := pieces_unfinished habove hdots
    have hone : Text.pieces '/' (undotted (above ++ "/1".toList ++ dots)) = [above, ['1']] :=
      pieces_fraction habove (List.forall_mem_singleton.mpr rfl) hdots
    have hcount : (above ++ '/' :: dots).count dot = (above ++ "/1".toList ++ dots).count dot := by
      simp [dot]
    have hnumeral : (quantity? ['1'] : Option Float) = some (Scalar.ofInt 1) := by
      decide +kernel
    rw [quarters_of_pair hmissing rfl rfl, quarters_of_pair hone rfl hnumeral, hcount]
    rfl

/-- A dotted quarter note is laid out as it is read. -/
theorem lengthsAgree_iff_dottedQuarter :
  let noun := "1/4+".toList
  isLengthText noun ∧ ¬Unfinished noun ∧ LengthsAgree noun
  := by
  intro noun
  have hlength : isLengthText noun := by
    decide
  have hpieces : Text.pieces '/' (undotted noun) = [['1'], ['4']] := by
    decide
  have hfinished : ¬Unfinished noun := by
    rw [unfinished_iff hlength, hpieces]
    rintro ⟨above, heq, -⟩
    cases heq
  exact ⟨hlength, hfinished, (lengthsAgree_iff hlength).1.mpr hfinished⟩

/-- A fraction with nothing below it cannot be read, and it takes four quarter notes. -/
theorem not_lengthsAgree_noDenominator :
  let noun := "1/".toList
  isLengthText noun ∧
    (read noun : Except LengthError (NoteLength Float)) = .error (.notNumeral []) ∧
    (quarters noun : Float) = 4.0 ∧ ¬LengthsAgree noun
  := by
  intro noun
  have hread : (read noun : Except LengthError (NoteLength Float)) = .error (.notNumeral []) := rfl
  have hquarters : (quarters noun : Float) = 4.0 := by
    decide +kernel
  refine ⟨by decide, hread, hquarters, ?_⟩
  intro hagree
  have hzero := hagree.error _ hread
  rw [hquarters] at hzero
  revert hzero
  decide +kernel

end Agreement

end Tunescript.NoteLength
