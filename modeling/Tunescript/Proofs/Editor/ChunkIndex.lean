import Mathlib.Tactic.Common
import Tunescript.Editor.Indexed

/-!
# An index of the chunks

Halving a list in order finds the last entry up to a bound (`bisect_eq`), and so the starts of the
chunks yield the chunk that holds a position (`chunkAt_eq`).  An edit changes only that chunk
(`insertInto_eq`), or those from the one that holds the first character of a range to the one that
holds its last (`removeFrom_eq_of_holds`), as it does if it counts through the chunks.
-/

namespace Tunescript.Buffer

/-- Halving finds the place behind the last entry up to the bound. -/
theorem bisect_eq {starts : List Nat} {n k : Nat}
    (hk : ∀ i < starts.length, starts.getD i 0 ≤ n ↔ i ≤ k) {lo hi : Nat}
    (hlo : lo ≤ k + 1) (hle : k + 1 ≤ hi) (hhi : hi ≤ starts.length) :
  bisect starts n lo hi = k + 1
  := by
  induction lo, hi using bisect.induct starts n with
  | case1 lo hi hlt middle hbefore ih =>
    have hmiddle : ¬middle ≤ k := by
      rw [← hk middle (by omega)]
      omega
    rw [bisect, if_pos hlt]
    simp only [middle] at hbefore
    rw [if_pos hbefore]
    apply ih hlo (by omega) (by omega)
  | case2 lo hi hlt middle hbehind ih =>
    have hmiddle : middle ≤ k := by
      rw [← hk middle (by omega)]
      omega
    rw [bisect, if_pos hlt]
    simp only [middle] at hbehind
    rw [if_neg hbehind]
    apply ih (by omega) hle hhi
  | case3 lo hi hge =>
    rw [bisect, if_neg hge]
    omega

section Starts

variable (cs : Snapshot)

@[simp]
theorem length_startsOf :
  (startsOf cs).length = cs.length + 1
  := List.length_scanl

theorem foldl_add_length (n : Nat) :
  cs.foldl (fun n c => n + c.length) n = n + cs.flatten.length
  := by
  induction cs generalizing n with
  | nil => rfl
  | cons c cs ih =>
    rw [List.foldl_cons, ih, List.flatten_cons, List.length_append, Nat.add_assoc]

/-- A chunk starts behind all chunks before it. -/
theorem getD_startsOf {k : Nat} (hk : k ≤ cs.length) :
  (startsOf cs).getD k 0 = (cs.take k).flatten.length
  := by
  rw [startsOf, List.getD_eq_getElem?_getD, List.getElem?_scanl, if_pos hk, Option.getD_some,
    foldl_add_length, Nat.zero_add]

/-- The last chunk ends where the text does. -/
theorem getLastD_startsOf :
  (startsOf cs).getLastD 0 = cs.flatten.length
  := by
  rw [startsOf, List.getLastD_eq_getLast?, List.getLast?_scanl, Option.getD_some, foldl_add_length,
    Nat.zero_add]

theorem length_flatten_take_mono {i j : Nat} (h : i ≤ j) :
  (cs.take i).flatten.length ≤ (cs.take j).flatten.length
  := by
  obtain ⟨d, rfl⟩ := Nat.exists_eq_add_of_le h
  rw [List.take_add, List.flatten_append, List.length_append]
  omega

end Starts

/-- The chunk between some others holds a position, counted from the first of them; the last chunk
also holds all positions behind the text. -/
structure Holds (us : Snapshot) (c : Text) (vs : Snapshot) (i : Nat) : Prop where
  /-- The chunk starts at the position or before it. -/
  start : us.flatten.length ≤ i
  /-- The chunk ends behind the position, or there is none after it. -/
  stop : i < us.flatten.length + c.length ∨ vs = []

/-- One of the chunks holds the position. -/
theorem exists_holds {cs : Snapshot} (hcs : cs ≠ []) (i : Nat) :
  ∃ us c vs, cs = us ++ c :: vs ∧ Holds us c vs i
  := by
  induction cs generalizing i with
  | nil => cases hcs rfl
  | cons c cs ih =>
    by_cases hc : i < c.length ∨ cs = []
    · refine ⟨[], c, cs, rfl, Nat.zero_le i, ?_⟩
      rwa [List.flatten_nil, List.length_nil, Nat.zero_add]
    · obtain ⟨hlt, hne⟩ := not_or.mp hc
      obtain ⟨us, d, vs, rfl, hstart, hstop⟩ := ih hne (i - c.length)
      refine ⟨c :: us, d, vs, rfl, ?_, ?_⟩
      · rw [List.flatten_cons, List.length_append]
        omega
      · apply hstop.imp_left
        rw [List.flatten_cons, List.length_append]
        omega

section Held

variable {us vs : Snapshot} {c : Text} {i : Nat}

/-- A chunk that holds a position of the text ends behind it. -/
theorem Holds.lt (h : Holds us c vs i) (hi : i < (us ++ c :: vs).flatten.length) :
  i < us.flatten.length + c.length
  := by
  obtain hstop | rfl := h.stop
  · apply hstop
  · simpa using hi

/-- Exactly the starts of the chunks up to the one that holds a position lie at or before it. -/
theorem Holds.getD_startsOf_le_iff (h : Holds us c vs i) {k : Nat}
    (hk : k ≤ (us ++ c :: vs).length) :
  (startsOf (us ++ c :: vs)).getD k 0 ≤ i ↔
    k ≤ us.length ∨ vs = [] ∧ us.flatten.length + c.length ≤ i
  := by
  have hbefore : ((us ++ c :: vs).take us.length).flatten.length = us.flatten.length := by
    rw [List.take_left]
  have hbehind : ((us ++ c :: vs).take (us.length + 1)).flatten.length =
      us.flatten.length + c.length := by
    have hcount : (us ++ [c]).length = us.length + 1 := List.length_append
    rw [List.append_cons, ← hcount, List.take_left, List.flatten_append, List.length_append,
      List.flatten_singleton]
  rw [getD_startsOf _ hk]
  constructor
  · intro hle
    by_contra hgt
    obtain ⟨hgt, hlast⟩ := not_or.mp hgt
    have hmono := length_flatten_take_mono (us ++ c :: vs) (Nat.lt_of_not_le hgt)
    rw [hbehind] at hmono
    obtain hstop | hnil := h.stop
    · omega
    · apply hlast
      exact ⟨hnil, Nat.le_trans hmono hle⟩
  · rintro (hle | ⟨rfl, hend⟩)
    · have hmono := length_flatten_take_mono (us ++ c :: vs) hle
      rw [hbefore] at hmono
      apply Nat.le_trans hmono h.start
    · have hmono := length_flatten_take_mono (us ++ [c]) hk
      rw [List.take_length] at hmono
      simp only [List.flatten_append, List.flatten_singleton, List.length_append] at hmono
      apply Nat.le_trans hmono hend

/-- The starts of the chunks yield the chunk that holds a position. -/
theorem chunkAt_eq (x : Indexed) (hstarts : x.chunkStarts = startsOf x.chunks)
    (hchunks : x.chunks = us ++ c :: vs) (h : Holds us c vs i) :
  x.chunkAt i = us.length
  := by
  have hcount : us.length + 1 ≤ (us ++ c :: vs).length := by simp
  have hlength : (startsOf (us ++ c :: vs)).length = (us ++ c :: vs).length + 1 := length_startsOf _
  rw [Indexed.chunkAt, hstarts, hchunks]
  by_cases hend : vs = [] ∧ us.flatten.length + c.length ≤ i
  · -- A position behind the text lies behind all starts, that of the end included.
    obtain ⟨rfl, hend⟩ := hend
    rw [bisect_eq (k := us.length + 1) _ (by omega) (by simp) (Nat.le_refl _)]
    · simp
    · intro k hk
      rw [hlength] at hk
      have hk' : k ≤ us.length + 1 := by simpa using Nat.le_of_lt_succ hk
      rw [h.getD_startsOf_le_iff (by omega)]
      exact iff_of_true (.inr ⟨rfl, hend⟩) hk'
  · rw [bisect_eq (k := us.length) _ (by omega) (by omega) (Nat.le_refl _)]
    · omega
    · intro k hk
      rw [h.getD_startsOf_le_iff (by omega), or_iff_left hend]

theorem chunkWith_eq (x : Indexed) (hstarts : x.chunkStarts = startsOf x.chunks)
    (hchunks : x.chunks = us ++ c :: vs) (i : Nat) :
  x.chunkWith us.length i = (c, i - us.flatten.length)
  := by
  have hle : us.length ≤ (us ++ c :: vs).length := by simp
  rw [Indexed.chunkWith, hstarts, hchunks, getD_startsOf _ hle, List.take_left,
    List.getD_eq_getElem?_getD, List.getElem?_append_right (Nat.le_refl _), Nat.sub_self]
  rfl

/-- A text is put into the chunk that holds the position. -/
theorem insertInto_eq (s : Text) (h : Holds us c vs i) :
  insertInto s i (us ++ c :: vs) =
    us ++ cut (c.take (i - us.flatten.length) ++ s ++ c.drop (i - us.flatten.length)) ++ vs
  := by
  obtain ⟨hstart, hstop⟩ := h
  induction us generalizing i with
  | nil =>
    rw [List.flatten_nil, List.length_nil, Nat.zero_add] at hstop
    cases vs with
    | nil => simp [insertInto]
    | cons d vs =>
      obtain hlt | hnil := hstop
      · simp [insertInto, hlt]
      · cases hnil
  | cons u us ih =>
    rw [List.flatten_cons, List.length_append] at hstart hstop
    have hlt : ¬i < u.length := by omega
    have hrest := ih (i := i - u.length) (by omega) (hstop.imp_left (by omega))
    -- The chunks behind the first are not empty, so that the first is passed over.
    obtain ⟨d, ds, hds⟩ := List.exists_cons_of_ne_nil (List.append_ne_nil_of_right_ne_nil us
      (List.cons_ne_nil c vs))
    rw [hds] at hrest
    rw [List.cons_append, hds, insertInto, if_neg hlt, hrest, List.flatten_cons,
      List.length_append, Nat.sub_sub]
    rfl

end Held

section Remove

variable {us vs : Snapshot} {start stop : Nat}

theorem after_append (h : us.flatten.length < stop) :
  after stop (us ++ vs) = after (stop - us.flatten.length) vs
  := by
  induction us generalizing stop with
  | nil => rfl
  | cons u us ih =>
    rw [List.flatten_cons, List.length_append] at h ⊢
    rw [List.cons_append, after, if_neg (by omega), ih (by omega), Nat.sub_sub]

theorem removeFrom_append (h : us.flatten.length ≤ start) :
  removeFrom start stop (us ++ vs) =
    us ++ removeFrom (start - us.flatten.length) (stop - us.flatten.length) vs
  := by
  induction us generalizing start stop with
  | nil => rfl
  | cons u us ih =>
    rw [List.flatten_cons, List.length_append] at h ⊢
    rw [List.cons_append, removeFrom, if_neg (by omega), ih (by omega), Nat.sub_sub, Nat.sub_sub]
    rfl

/-- A range is taken out of the chunks from the one that holds its first character to the one that
holds its last, of which the remains become one chunk. -/
theorem removeFrom_eq_of_holds {ws zs : Snapshot} {c d : Text} (h : start < stop)
    (hstop : stop ≤ (us ++ c :: vs).flatten.length) (hstart : Holds us c vs start)
    (hlast : Holds ws d zs (stop - 1)) (hsame : us ++ c :: vs = ws ++ d :: zs) :
  removeFrom start stop (us ++ c :: vs) =
    us ++ let merged := c.take (start - us.flatten.length) ++ d.drop (stop - ws.flatten.length)
      if merged.isEmpty then zs else merged :: zs
  := by
  have hc := hstart.lt (Nat.lt_of_lt_of_le h hstop)
  have hd := hlast.lt (by rw [← hsame]; omega)
  have hbefore := hstart.start
  have hbefore' := hlast.start
  have hafter : after (stop - us.flatten.length) (c :: vs) =
      (d.drop (stop - ws.flatten.length), zs) := by
    rw [← after_append (by omega), hsame, after_append (by omega), after, if_pos (by omega)]
  rw [removeFrom_append hbefore, removeFrom, if_pos (by omega), hafter]

end Remove

end Tunescript.Buffer
