import Tunescript.Number.Numeral
import Tunescript.Proofs.Score.Shape

/-!
# Whole numerals

A text of digits writes the whole number with these digits (`read?_of_digits`), which is zero
exactly if all of them are (`whole_eq_zero_iff`).
-/

namespace Tunescript.Numeral

variable {t : Text} {c : Char}

/-- The number that a text of digits writes. -/
def whole (t : Text) : Nat := ofDigits (t.map fun c => c.toNat - 0x30)

/-- The number of some digits is zero exactly if all of them are. -/
theorem ofDigits_eq_zero_iff {ds : List Nat} :
  ofDigits ds = 0 ↔ ∀ d ∈ ds, d = 0
  := by
  have hfold (n : Nat) : ds.foldl (fun n d => n * 10 + d) n = 0 ↔ n = 0 ∧ ∀ d ∈ ds, d = 0 := by
    induction ds generalizing n with
    | nil => simp
    | cons d ds ih =>
      have hsum : n * 10 + d = 0 ↔ n = 0 ∧ d = 0 := by omega
      rw [List.foldl_cons, ih, List.forall_mem_cons, hsum, and_assoc]
  rw [ofDigits, hfold]
  exact and_iff_right rfl

theorem bounds_of_isDigit (h : c.isDigit) :
  0x30 ≤ c.toNat ∧ c.toNat ≤ 0x39
  := Char.isDigit_iff_toNat.mp h

theorem value_eq_zero_iff (h : c.isDigit) :
  c.toNat - 0x30 = 0 ↔ c = '0'
  := by
  have hbounds := bounds_of_isDigit h
  constructor
  · intro hzero
    apply Char.toNat_inj.mp
    change c.toNat = 0x30
    omega
  · rintro rfl
    rfl

/-- No digit stands around a numeral. -/
theorem isMargin_eq_false (h : c.isDigit) :
  isMargin c = false
  := by
  rw [isMargin, Score.isBlank_eq_false_of_isInner]
  · rfl
  · apply Score.isInner_of_isFractionChar c (Score.isFractionChar_of_isDigit c h)

/-- A digit has no lower case of its own. -/
theorem toLower_of_isDigit (h : c.isDigit) :
  c.toLower = c
  := by
  have hbounds := bounds_of_isDigit h
  have hletter : ¬(c.val ≥ 'A'.val ∧ c.val ≤ 'Z'.val) := by
    rintro ⟨hle, -⟩
    have hle' : 0x41 ≤ c.toNat := hle
    omega
  exact dif_neg hletter

/-- A text of digits writes zero exactly if all its digits are zero. -/
theorem whole_eq_zero_iff (ht : ∀ c ∈ t, c.isDigit) :
  whole t = 0 ↔ ∀ c ∈ t, c = '0'
  := by
  rw [whole, ofDigits_eq_zero_iff, List.forall_mem_map]
  apply forall₂_congr
  intro c hc
  apply value_eq_zero_iff (ht c hc)

/-- A text of digits is read to its end. -/
theorem digits_of_isDigit (ht : ∀ c ∈ t, c.isDigit) :
  digits t = (t.map fun c => c.toNat - 0x30, [])
  := by
  induction t with
  | nil => rfl
  | cons c t ih =>
    obtain ⟨hc, ht⟩ := List.forall_mem_cons.mp ht
    rw [digits, Text.digitValue?_of_isDigit hc]
    dsimp only
    split
    · rename_i u
      cases ht '_' List.mem_cons_self
    · rw [ih ht]
      rfl

theorem trim_of_isDigit (ht : ∀ c ∈ t, c.isDigit) :
  trim t = t
  := by
  have hstop {u : Text} (hu : ∀ c ∈ u, c.isDigit) : u.dropWhile isMargin = u := by
    cases u with
    | nil => rfl
    | cons c u =>
      rw [List.dropWhile_cons_of_neg]
      rw [isMargin_eq_false (hu c List.mem_cons_self)]
      exact Bool.false_ne_true
  have hreverse : ∀ c ∈ t.reverse, c.isDigit := fun c hc => ht c (List.mem_reverse.mp hc)
  rw [trim, hstop ht, Text.dropEndWhile, hstop hreverse, List.reverse_reverse]

theorem sign_of_isDigit (hc : c.isDigit) :
  sign (c :: t) = (false, c :: t)
  := by
  unfold sign
  split
  · rename_i h
    obtain ⟨rfl, -⟩ := List.cons.inj h
    exact absurd hc (by decide)
  · rename_i h
    obtain ⟨rfl, -⟩ := List.cons.inj h
    exact absurd hc (by decide)
  · rfl

/-- A text of digits writes their number. -/
theorem read?_of_digits (hne : t ≠ []) (ht : ∀ c ∈ t, c.isDigit) :
  read? t = some (.finite false (whole t) 0)
  := by
  have htrim := trim_of_isDigit ht
  obtain ⟨c, u, rfl⟩ := List.exists_cons_of_ne_nil hne
  have hc : c.isDigit := ht c List.mem_cons_self
  have hword {w : Text} (hw : w.head?.all (!Char.isDigit ·)) : (c :: u).map Char.toLower ≠ w := by
    rintro rfl
    rw [List.map_cons, toLower_of_isDigit hc, List.head?_cons, Option.all_some, hc] at hw
    cases hw
  rw [read?, htrim, sign_of_isDigit hc]
  dsimp only
  rw [unsigned?]
  dsimp only
  rw [if_neg, if_neg, digits_of_isDigit ht]
  · simp [exponent?, whole]
  · apply hword rfl
  · rintro (hinf | hinfinity)
    · apply hword rfl hinf
    · apply hword rfl hinfinity

end Tunescript.Numeral
