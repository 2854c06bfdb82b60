import Tunescript.Proofs.Number.AtLeastOne
import Tunescript.Proofs.Score.Tokens
import Tunescript.Proofs.Text.Pieces
import Tunescript.Score.Length

/-!
# Quantities without a minus sign

A text without a dash writes an unsigned quantity, and in exact arithmetic one that is not
negative.  Sums, products and quotients keep both properties (`NoteLength.signless_unsigned`,
`NoteLength.signless_nonneg`), and the two sides of a fraction without a dash have them
(`NoteLength.Signless.read`).  In a score that is read no tempo, no time signature and no length of
a note has a dash, for dashes are filler (`dashless_of_read`).
-/

namespace Tunescript

open Binary64 (Unsigned)

namespace NoteLength

variable {t noun : Text} {x : Float}

theorem unsigned_of_quantity? (h : quantity? t = some x) (ht : '-' ∉ t) :
  Unsigned x
  := by
  obtain ⟨n, hn, hx⟩ := Option.bind_eq_some_iff.mp h
  obtain rfl : Binary64.ofNumeral n = x := Option.some.inj hx
  apply Binary64.unsigned_ofNumeral (Numeral.isNegative_of_read? hn ht)

/-- Dots make no minus sign. -/
theorem unsigned_dotFactor (dots : Nat) :
  Unsigned (dotFactor dots : Float)
  := (Binary64.atLeastOne_two_sub_powerOfTwo dots).1.unsigned

/-- In exact arithmetic a text without a dash writes no negative quantity. -/
theorem nonneg_of_quantity? {x : Rat} (h : quantity? t = some x) (ht : '-' ∉ t) :
  0 ≤ x
  := by
  obtain ⟨n, hn, hx⟩ := Option.bind_eq_some_iff.mp h
  have hrat : n.toRat? = some x := hx
  cases n with
  | finite negative digits exponent =>
    obtain rfl : negative = false := Numeral.isNegative_of_read? hn ht
    rw [Numeral.toRat?] at hrat
    split at hrat
    · cases hrat
      exact Rat.mkRat_nonneg (Int.mul_nonneg (Int.natCast_nonneg digits) (Int.natCast_nonneg _)) 1
    · cases hrat
      exact Rat.mkRat_nonneg (Int.natCast_nonneg digits) _
  | _ => cases hrat

/-- Dots do not turn a note around. -/
theorem nonneg_dotFactor (dots : Nat) :
  0 ≤ (dotFactor dots : Rat)
  := by
  have hhalving : mkRat 1 (2 ^ dots) ≤ 1 := by
    rw [Rat.mkRat_eq_div]
    apply div_le_one_of_le₀
    · exact_mod_cast Nat.one_le_two_pow
    · apply Nat.cast_nonneg
  have htwo : mkRat 1 (2 ^ dots) ≤ 2 := hhalving.trans one_le_two
  exact sub_nonneg.mpr htwo

/-- A property that quantities without a dash have and that arithmetic keeps. -/
structure Signless {α : Type} [Scalar α] (P : α → Prop) : Prop where
  /-- What a text without a dash writes has it. -/
  quantity : ∀ {t : Text} {x : α}, quantity? t = some x → '-' ∉ t → P x
  /-- An integer that is not negative has it. -/
  ofInt : ∀ {n : Int}, 0 ≤ n → P (Scalar.ofInt n)
  /-- Dots have it. -/
  dotFactor : ∀ dots : Nat, P (dotFactor dots)
  /-- A sum keeps it. -/
  add : ∀ {x y : α}, P x → P y → P (x + y)
  /-- A product keeps it. -/
  mul : ∀ {x y : α}, P x → P y → P (x * y)
  /-- A quotient keeps it. -/
  div : ∀ {x y : α}, P x → P y → P (x / y)

theorem signless_unsigned :
  Signless Unsigned
  where
  quantity := unsigned_of_quantity?
  ofInt := Binary64.unsigned_ofInt
  dotFactor := unsigned_dotFactor
  add := Unsigned.add
  mul := Unsigned.mul
  div := Unsigned.div

theorem signless_nonneg :
  Signless fun x : Rat => 0 ≤ x
  where
  quantity := nonneg_of_quantity?
  ofInt := Int.cast_nonneg
  dotFactor := nonneg_dotFactor
  add := add_nonneg
  mul := mul_nonneg
  div := div_nonneg

/-- The sides of a fraction without a dash are quantities without one. -/
theorem Signless.read {α : Type} [Scalar α] {P : α → Prop} (hP : Signless P) {length : NoteLength α}
    (h : read noun = .ok length) (hnoun : '-' ∉ noun) :
  P length.numerator ∧ P length.denominator
  := by
  have hpiece {p : Text} (hp : p ∈ Text.pieces '/' (undotted noun)) : '-' ∉ p := by
    apply Text.not_mem_of_mem_pieces hp
    intro hmem
    apply hnoun (List.mem_of_mem_filter hmem)
  rw [NoteLength.read] at h
  split at h
  · rename_i above below hpieces
    rw [hpieces] at hpiece
    split at h
    · cases h
    · rename_i n hn
      split at h
      · cases h
      · rename_i d hd
        split at h
        · cases h
        · cases h
          exact ⟨hP.quantity hn (hpiece (by simp)), hP.quantity hd (hpiece (by simp))⟩
  · cases h

end NoteLength

/-- Where the command has a quantity as its noun, there is no dash in it. -/
def Command.Dashless (c : Command) : Prop :=
  match c.verb with
  | .tempo | .time | .note _ => '-' ∉ c.noun
  | _ => True

namespace Score

/-- What a phrase spells has no dash in its quantity. -/
theorem Spells.dashless {r p : Text} {c : Command} (h : Spells r p c) :
  c.Dashless
  := by
  cases h with
  | tempo _ _ hnumber => exact hnumber.not_mem rfl
  | time _ _ hfraction => exact hfraction.not_mem rfl
  | @note _ _ name _ fraction inner _ outer _ _ _ _ _ hfraction hinner _ houter =>
    have hdots {d : Text} (hd : ∀ c ∈ d, c = '+') : '-' ∉ d := not_mem_of_dots hd (by decide)
    have hnoun : '-' ∉ fraction ++ inner ++ outer := by
      simp [hfraction.not_mem (c := '-') rfl, hdots hinner, hdots houter]
    rw [Command.Dashless]
    split <;> first | exact hnoun | trivial
  | _ => exact trivial

/-- The quantities of a score that is read have no dashes. -/
theorem dashless_of_read {t : Text} {cs : List Command} (h : read t = .ok cs) :
  ∀ c ∈ cs, c.Dashless
  := by
  obtain ⟨ps, hps, -, rfl⟩ := spelled_of_commands (read_eq_ok.mp h)
  intro c hc
  obtain ⟨p, hp, rfl⟩ := List.mem_map.mp hc
  obtain ⟨r, hspells⟩ := hps.exists_spells hp
  apply hspells.dashless

end Score

end Tunescript
