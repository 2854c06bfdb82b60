import Mathlib.Order.Bounds.Basic
import Tunescript.Proofs.Score.Spans

/-!
# The note at a cursor is found by a bounded scan

The note at a cursor opens at the last opening parenthesis at or before the cursor and closes at the
first closing one behind that, both among a hundred characters (`noteAt?_eq_some_iff`).  The search
that steps from character to character finds the same and looks at no position outside the text
(`scanNote_eq_ok`).
-/

namespace Tunescript.Score

section Opening

variable {t u : Text} {limit d c : Nat} {first : Bool}

/-- The opening is the first one in its direction, and another closing does not stand in front of
it. -/
theorem openingDistance?_eq_some_iff :
  openingDistance? limit first u = some d ↔
    d < limit ∧ u[d]? = some noteOpening ∧ (∀ j < d, u[j]? ≠ some noteOpening) ∧
      ∀ j < d, (j = 0 → first = false) → u[j]? ≠ some noteClosing
  := by
  induction u generalizing limit first d with
  | nil => cases limit <;> simp [openingDistance?]
  | cons x u ih =>
    cases limit with
    | zero => simp [openingDistance?]
    | succ limit =>
      have hmarks : noteOpening ≠ noteClosing := by decide
      rw [openingDistance?]
      cases d with
      | zero =>
        by_cases hx : x = noteOpening
        · simp [hx]
        · rw [if_neg hx]
          split
          · simp [hx]
          · simp [hx]
      | succ d =>
        simp only [Nat.forall_lt_succ_left, List.getElem?_cons_zero, List.getElem?_cons_succ,
          Nat.succ_lt_succ_iff]
        by_cases hx : x = noteOpening
        · simp [hx]
        · by_cases hclosing : x = noteClosing ∧ ¬first
          · simp [hclosing]
          · have hclear : first = false → x ≠ noteClosing := by
              rintro rfl rfl
              apply hclosing ⟨rfl, Bool.false_ne_true⟩
            rw [if_neg hx, if_neg hclosing]
            simpa [hx, ih] using fun _ _ _ _ => hclear

/-- Read backwards from a position, a text has its characters in front of the position. -/
theorem getElem?_reverse_take {j : Nat} (hc : c < t.length) (hj : j ≤ c) :
  (t.take (c + 1)).reverse[j]? = t[c - j]?
  := by
  have hlength : (t.take (c + 1)).length = c + 1 := List.length_take_of_le hc
  rw [List.getElem?_reverse (by omega), hlength, List.getElem?_take_of_lt (by omega)]
  congr 1

/-- An opening that is found from a position backwards is in the text. -/
theorem openingDistance?_le (hd : openingDistance? limit first (t.take (c + 1)).reverse = some d) :
  d ≤ c
  := by
  obtain ⟨hlt, -⟩ := List.getElem?_eq_some_iff.mp (openingDistance?_eq_some_iff.mp hd).2.1
  rw [List.length_reverse, List.length_take] at hlt
  omega

/-- Behind the last opening in front of the cursor, and not too far from it, there is no closing up
to the cursor. -/
theorem openingDistance?_reverse_take (hc : c < t.length) {s : Nat} (hs : s ≤ c) :
  openingDistance? limit true (t.take (c + 1)).reverse = some (c - s) ↔
    c - s < limit ∧ IsGreatest {i | i ≤ c ∧ t[i]? = some noteOpening} s ∧
      ∀ i, s < i → i < c → t[i]? ≠ some noteClosing
  := by
  rw [openingDistance?_eq_some_iff, getElem?_reverse_take hc (Nat.sub_le c s), Nat.sub_sub_self hs]
  apply and_congr_right
  intro _
  rw [IsGreatest, Set.mem_ofPred_eq, and_assoc, and_assoc, and_iff_right hs]
  apply and_congr_right
  intro _
  apply and_congr
  · constructor
    · rintro h i ⟨hi, hopening⟩
      by_contra hlt
      apply h (c - i) (by omega)
      rw [getElem?_reverse_take hc (Nat.sub_le c i), Nat.sub_sub_self hi, hopening]
    · intro h j hj hopening
      rw [getElem?_reverse_take hc (by omega)] at hopening
      have hle := h ⟨Nat.sub_le c j, hopening⟩
      omega
  · constructor
    · intro h i hi hic hclosing
      apply h (c - i) (by omega) (by omega)
      rw [getElem?_reverse_take hc (Nat.sub_le c i), Nat.sub_sub_self hic.le, hclosing]
    · intro h j hj hfirst hclosing
      rw [getElem?_reverse_take hc (by omega)] at hclosing
      have hj0 : j ≠ 0 := fun h0 => Bool.noConfusion (hfirst h0)
      apply h (c - j) (by omega) (by omega) hclosing

end Opening

section Closing

variable {t : Text} {start : Nat}

/-- The position behind the dots that follow a position. -/
def dotsEnd (t : Text) (i : Nat) : Nat := i + ((t.drop i).takeWhile (· == '+')).length

theorem noteFrom?_eq_map (t : Text) (start : Nat) :
  noteFrom? t start = (Text.indexOf? noteClosing ((t.drop start).take scanLimit)).map fun k =>
    ⟨start, dotsEnd t (start + k + 1)⟩
  := by
  rw [noteFrom?]
  cases Text.indexOf? noteClosing ((t.drop start).take scanLimit)
  · rfl
  · rfl

/-- A note that opens at a position closes at the first closing behind it. -/
theorem noteFrom?_eq_some_iff (hstart : t[start]? = some noteOpening) (span : Span) :
  noteFrom? t start = some span ↔
    ∃ p, IsLeast {i | start < i ∧ t[i]? = some noteClosing} p ∧ p - start < scanLimit ∧
      span = ⟨start, dotsEnd t (p + 1)⟩
  := by
  simp only [noteFrom?_eq_map, Option.map_eq_some_iff, Text.indexOf?_take_eq_some_iff,
    List.getElem?_drop]
  have hnot : t[start]? ≠ some noteClosing := by
    rw [hstart]
    decide
  constructor
  · rintro ⟨k, ⟨hlimit, hclosing, hfirst⟩, rfl⟩
    have hk : k ≠ 0 := by
      rintro rfl
      apply hnot hclosing
    refine ⟨start + k, ⟨⟨by omega, hclosing⟩, ?_⟩, by omega, rfl⟩
    rintro i ⟨hi, hclosing'⟩
    by_contra hlt
    apply hfirst (i - start) (by omega)
    rw [Nat.add_sub_cancel' hi.le, hclosing']
  · rintro ⟨p, ⟨⟨hp, hclosing⟩, hleast⟩, hlimit, rfl⟩
    refine ⟨p - start, ⟨hlimit, ?_, ?_⟩, ?_⟩
    · rw [Nat.add_sub_cancel' hp.le, hclosing]
    · intro j hj hclosing'
      obtain rfl | hj0 := Nat.eq_zero_or_pos j
      · apply hnot hclosing'
      · have hle := hleast ⟨Nat.lt_add_of_pos_right hj0, hclosing'⟩
        omega
    · rw [Nat.add_sub_cancel' hp.le]

end Closing

section Range

/-- The range of the note at a cursor: from the last opening at or before the cursor over the first
closing behind that, which is not in front of the cursor, with the dots that follow it; either
parenthesis lies at most 99 characters from the opening or the cursor. -/
structure NoteRange (t : Text) (cursor : Int) (span : Span) : Prop where
  /-- The cursor is on a character. -/
  inText : 0 ≤ cursor ∧ cursor < t.length
  /-- The note starts with the last opening up to the cursor. -/
  opening : IsGreatest {i : Nat | (i : Int) ≤ cursor ∧ t[i]? = some '('} span.start
  /-- The opening is not too far from the cursor. -/
  near : cursor - span.start ≤ 99
  /-- The note ends with the first closing behind the opening and the dots that follow it. -/
  closing : ∃ p : Nat, IsLeast {i : Nat | span.start < i ∧ t[i]? = some ')'} p ∧ cursor ≤ p ∧
    p - span.start ≤ 99 ∧ span.stop = p + 1 + ((t.drop (p + 1)).takeWhile (· == '+')).length

variable {t : Text} {c : Nat}

/-- At a character of the text the note is the one that opens at the opening found behind the
character, if it reaches beyond the character. -/
theorem noteAt?_natCast_eq_some_iff (hc : c < t.length) (span : Span) :
  noteAt? t c = some span ↔
    ∃ s ≤ c, openingDistance? scanLimit true (t.take (c + 1)).reverse = some (c - s) ∧
      noteFrom? t s = some span ∧ c < span.stop
  := by
  have hcursor : (0 : Int) ≤ c ∧ (c : Int) < t.length := ⟨Int.natCast_nonneg c, Int.ofNat_lt.mpr hc⟩
  rw [noteAt?, if_pos hcursor]
  dsimp only
  rw [Int.toNat_natCast]
  constructor
  · intro h
    split at h
    · cases h
    · rename_i d hd
      obtain ⟨hnote, hstop⟩ := Option.filter_eq_some_iff.mp h
      refine ⟨c - d, Nat.sub_le c d, ?_, hnote, of_decide_eq_true hstop⟩
      rw [hd, Nat.sub_sub_self (openingDistance?_le hd)]
  · rintro ⟨s, hs, hd, hnote, hstop⟩
    rw [hd]
    dsimp only
    rw [Nat.sub_sub_self hs, hnote, Option.filter_some, if_pos (decide_eq_true hstop)]

/-- The note that is found at a cursor is the one in the range of the scan. -/
theorem noteAt?_eq_some_iff (t : Text) (cursor : Int) (span : Span) :
  noteAt? t cursor = some span ↔ NoteRange t cursor span
  := by
  by_cases hcursor : 0 ≤ cursor ∧ cursor < t.length
  · obtain ⟨c, rfl⟩ := Int.eq_ofNat_of_zero_le hcursor.1
    have hc : c < t.length := Int.ofNat_lt.mp hcursor.2
    rw [noteAt?_natCast_eq_some_iff hc]
    constructor
    · rintro ⟨s, hs, hd, hnote, -⟩
      obtain ⟨hnear, hopening, hclear⟩ := (openingDistance?_reverse_take hc hs).mp hd
      obtain ⟨p, hclosing, hlimit, rfl⟩ := (noteFrom?_eq_some_iff hopening.1.2 span).mp hnote
      have hp : c ≤ p := by
        by_contra hlt
        apply hclear p hclosing.1.1 (Nat.lt_of_not_le hlt) hclosing.1.2
      rw [scanLimit] at hnear hlimit
      refine ⟨hcursor, by simpa [noteOpening] using hopening, ?_, p, hclosing,
        Int.ofNat_le.mpr hp, ?_, rfl⟩
      · dsimp only
        omega
      · dsimp only
        omega
    · obtain ⟨s, e⟩ := span
      rintro ⟨-, hopening, hnear, p, hclosing, hp, hlimit, hstop⟩
      dsimp only at hopening hnear hclosing hlimit hstop
      have hp : c ≤ p := Int.ofNat_le.mp hp
      have hs : s ≤ c := Int.ofNat_le.mp hopening.1.1
      refine ⟨s, hs, (openingDistance?_reverse_take hc hs).mpr ⟨?_, ?_, ?_⟩,
        (noteFrom?_eq_some_iff hopening.1.2 _).mpr ⟨p, hclosing, ?_, ?_⟩, ?_⟩
      · rw [scanLimit]
        omega
      · simpa [noteOpening] using hopening
      · intro i hi hic hi'
        have hle := hclosing.2 ⟨hi, hi'⟩
        omega
      · rw [scanLimit]
        omega
      · rw [hstop, dotsEnd]
      · dsimp only
        omega
  · rw [noteAt?, if_neg hcursor]
    constructor
    · intro h
      cases h
    · intro h
      cases hcursor h.inText

end Range

section Positions

/-- The character at a position; a position outside the text is refused. -/
def charAt (t : Text) (i : Int) : Except Int Char :=
  if i < 0 then .error i
  else match t[i.toNat]? with
    | some c => .ok c
    | none => .error i

/-- The position of the opening, looked for from a position backwards. -/
def openingFrom (t : Text) (cursor : Int) : (limit : Nat) → (i : Int) → Except Int (Option Int)
  | 0, _ => .ok none
  | limit + 1, i => do
    let c ← charAt t i
    if c = noteOpening then return some i
    else if c = noteClosing ∧ i ≠ cursor then return none
    else if i = 0 then return none
    else openingFrom t cursor limit (i - 1)

/-- The position behind the closing, looked for from a position on. -/
def closingFrom (t : Text) : (limit : Nat) → (i : Int) → Except Int (Option Int)
  | 0, _ => .ok none
  | limit + 1, i =>
    if t.length ≤ i then return none
    else do
      let c ← charAt t i
      if c = noteClosing then return some (i + 1)
      else closingFrom t limit (i + 1)

/-- The position behind the dots from a position on. -/
def dotsFrom (t : Text) : (limit : Nat) → (i : Int) → Except Int Int
  | 0, i => .ok i
  | limit + 1, i =>
    if t.length ≤ i then return i
    else do
      let c ← charAt t i
      if c = '+' then dotsFrom t limit (i + 1)
      else return i

/-- The note at a cursor, looked for by steps from position to position. -/
def scanNote (t : Text) (cursor : Int) : Except Int (Option Span) :=
  if 0 ≤ cursor ∧ cursor < t.length then do
    match ← openingFrom t cursor scanLimit cursor with
    | none => return none
    | some start =>
      match ← closingFrom t scanLimit start with
      | none => return none
      | some close =>
        let stop ← dotsFrom t t.length close
        if start ≤ cursor ∧ cursor < stop then return some ⟨start.toNat, stop.toNat⟩
        else return none
  else return none

variable {t : Text} {limit n c : Nat}

theorem charAt_natCast (hn : n < t.length) :
  charAt t n = .ok t[n]
  := by
  have hnot : ¬(n : Int) < 0 := by omega
  rw [charAt, if_neg hnot, Int.toNat_natCast, List.getElem?_eq_getElem hn]

theorem openingDistance?_nil (limit : Nat) (first : Bool) :
  openingDistance? limit first [] = none
  := by
  cases limit
  · rfl
  · rfl

/-- The steps backwards find the opening. -/
theorem openingFrom_natCast (hc : c < t.length) (hn : n ≤ c) :
  openingFrom t c limit n =
    .ok ((openingDistance? limit (decide (n = c)) (t.take (n + 1)).reverse).map fun d : Nat =>
      (n : Int) - d)
  := by
  induction limit generalizing n with
  | zero => rfl
  | succ limit ih =>
    have hlt : n < t.length := by omega
    rw [openingFrom, charAt_natCast hlt, List.take_add_one, List.getElem?_eq_getElem hlt,
      Option.toList_some, List.reverse_append, List.reverse_singleton, List.singleton_append,
      openingDistance?]
    simp only [bind, Except.bind]
    by_cases hopening : t[n] = noteOpening
    · simp [hopening, pure, Except.pure]
    · rw [if_neg hopening, if_neg hopening]
      have hfirst : (n : Int) ≠ c ↔ ¬decide (n = c) := by
        rw [decide_eq_true_iff, Int.ofNat_inj.ne]
      simp only [hfirst]
      by_cases hclosing : t[n] = noteClosing ∧ ¬decide (n = c)
      · rw [if_pos hclosing, if_pos hclosing]
        rfl
      · rw [if_neg hclosing, if_neg hclosing]
        cases n with
        | zero =>
          rw [List.take_zero, List.reverse_nil, openingDistance?_nil]
          rfl
        | succ m =>
          have hm : decide (m = c) = false := decide_eq_false (by omega)
          have hstep : ((m + 1 : Nat) : Int) - 1 = m := by omega
          rw [if_neg (by omega), hstep, ih (by omega), hm, Option.map_map]
          congr 2
          funext d
          simp only [Function.comp_apply]
          omega

/-- The steps forward find the closing. -/
theorem closingFrom_natCast :
  closingFrom t limit n =
    .ok ((Text.indexOf? noteClosing ((t.drop n).take limit)).map fun k => ((n + k + 1 : Nat) : Int))
  := by
  induction limit generalizing n with
  | zero => rfl
  | succ limit ih =>
    rw [closingFrom]
    by_cases hlt : n < t.length
    · rw [if_neg (by omega), charAt_natCast hlt, List.drop_eq_getElem_cons hlt, List.take_succ_cons,
        Text.indexOf?, List.findIdx?_cons]
      simp only [bind, Except.bind]
      by_cases hclosing : t[n] = noteClosing
      · simp [hclosing, pure, Except.pure]
      · have hstep : (n : Int) + 1 = (n + 1 : Nat) := by omega
        rw [if_neg hclosing, hstep, ih, if_neg (by simpa using hclosing), Option.map_map,
          Text.indexOf?]
        congr 2
        funext k
        simp only [Function.comp_apply]
        omega
    · rw [if_pos (by omega), List.drop_of_length_le (by omega), List.take_nil]
      rfl

/-- The steps over the dots end behind the last. -/
theorem dotsFrom_natCast (hlimit : t.length ≤ n + limit) :
  dotsFrom t limit n = .ok (dotsEnd t n : Int)
  := by
  induction limit generalizing n with
  | zero =>
    rw [Nat.add_zero] at hlimit
    rw [dotsEnd, List.drop_of_length_le hlimit]
    rfl
  | succ limit ih =>
    rw [dotsFrom]
    by_cases hlt : n < t.length
    · rw [if_neg (by omega), charAt_natCast hlt, dotsEnd, List.drop_eq_getElem_cons hlt,
        List.takeWhile_cons]
      simp only [bind, Except.bind]
      by_cases hdot : t[n] = '+'
      · have hstep : (n : Int) + 1 = (n + 1 : Nat) := by omega
        rw [if_pos hdot, hstep, ih (by omega), if_pos (by simpa using hdot), dotsEnd,
          List.length_cons]
        congr 2
        omega
      · rw [if_neg hdot, if_neg (by simpa using hdot)]
        rfl
    · rw [if_pos (by omega), dotsEnd, List.drop_of_length_le (by omega)]
      rfl

/-- The steps from position to position find the note at the cursor, and none of them leaves the
text. -/
theorem scanNote_eq_ok (t : Text) (cursor : Int) :
  scanNote t cursor = .ok (noteAt? t cursor)
  := by
  rw [scanNote, noteAt?]
  split
  · rename_i hcursor
    obtain ⟨c, rfl⟩ := Int.eq_ofNat_of_zero_le hcursor.1
    have hc : c < t.length := Int.ofNat_lt.mp hcursor.2
    dsimp only
    rw [Int.toNat_natCast, openingFrom_natCast hc (Nat.le_refl c), decide_eq_true rfl]
    simp only [bind, Except.bind]
    cases hd : openingDistance? scanLimit true (t.take (c + 1)).reverse with
    | none => rfl
    | some d =>
      have hstart : (c : Int) - d = (c - d : Nat) := (Int.ofNat_sub (openingDistance?_le hd)).symm
      have hle : ((c - d : Nat) : Int) ≤ c := Int.ofNat_le.mpr (Nat.sub_le c d)
      simp only [Option.map_some, hstart, closingFrom_natCast, noteFrom?_eq_map]
      cases Text.indexOf? noteClosing ((t.drop (c - d)).take scanLimit) with
      | none => rfl
      | some k =>
        simp only [Option.map_some, dotsFrom_natCast (Nat.le_add_left _ _), Int.toNat_natCast, hle,
          true_and, Int.ofNat_lt, Option.filter_some, decide_eq_true_iff]
        split
        · rfl
        · rfl
  · rfl

/-- The note at a cursor is exactly the range of the bounded scan, and there is none where that has
no range. Stepping from position to position finds the same, without a step outside the text. -/
theorem scan_iff_noteRange (t : Text) (cursor : Int) :
  (∀ span, noteAt? t cursor = some span ↔ NoteRange t cursor span) ∧
    (noteAt? t cursor = none ↔ ∀ span, ¬NoteRange t cursor span) ∧
    scanNote t cursor = .ok (noteAt? t cursor)
  := by
  refine ⟨noteAt?_eq_some_iff t cursor, ?_, scanNote_eq_ok t cursor⟩
  rw [Option.eq_none_iff_forall_ne_some]
  apply forall_congr'
  intro span
  rw [← noteAt?_eq_some_iff]

-- The closing is the hundredth character of the first note, and one too far in the second.
example :
  noteAt? ('(' :: List.replicate 98 'n' ++ [')']) 0 = some ⟨0, 100⟩ ∧
    noteAt? ('(' :: List.replicate 99 'n' ++ [')']) 0 = none
  := by
  decide +kernel

end Positions

end Tunescript.Score
