import Tunescript.Sorting.Cut
import Tunescript.Sorting.Permutation

/-!
# The order in which a race ends

Under a weak order, what goes out of a race may always precede what is left, in either
direction, so that a race between sides that are in order ends in order: `run_precedes`.
-/

namespace Tunescript.Sorting

variable {β : Type}

/-- A comparison under which no two elements are less than each other, and not being less is
transitive. -/
structure WeakOrder (lt : β → β → Bool) : Prop where
  asymm : ∀ x y, lt x y = true → lt y x = false
  trans : ∀ x y z, lt y x = false → lt z y = false → lt z x = false

/-- Whether no element of a list is less than one before it. -/
def Ordered (lt : β → β → Bool) (xs : List β) : Prop :=
  xs.Pairwise fun x y => lt y x = false

/-- Whether an element may go out before another one in a race. -/
def MayPrecede (lt : β → β → Bool) (d : Direction) (x y : β) : Prop :=
  match d with
  | .forward => lt y x = false
  | .backward => lt x y = false

variable {lt : β → β → Bool}

namespace MayPrecede

theorem trans (h : WeakOrder lt) {d : Direction} {x y z : β} (hxy : MayPrecede lt d x y)
    (hyz : MayPrecede lt d y z) :
  MayPrecede lt d x z
  := by
  cases d
  · exact h.trans x y z hxy hyz
  · exact h.trans z y x hyz hxy

theorem of_goesFirst (h : WeakOrder lt) {d : Direction} {x y : β}
    (hg : goesFirst lt d x y = true) :
  MayPrecede lt d x y
  := by
  cases d
  · exact (Bool.not_eq_true' _).mp hg
  · exact h.asymm y x hg

theorem of_not_goesFirst (h : WeakOrder lt) {d : Direction} {x y : β}
    (hg : goesFirst lt d x y = false) :
  MayPrecede lt d y x
  := by
  cases d
  · exact h.asymm y x (by simpa [goesFirst] using hg)
  · exact hg

theorem holdsBefore_left (h : WeakOrder lt) {d : Direction} (y : β) {xs : List β}
    (hx : xs.Pairwise (MayPrecede lt d)) :
  HoldsBefore (fun x => goesFirst lt d x y) xs
  := by
  apply hx.imp
  intro a b hab hb
  cases d
  · simp only [goesFirst, Bool.not_eq_true'] at *
    exact h.trans a b y hab hb
  · simp only [goesFirst] at *
    cases ha : lt y a
    · rw [h.trans b a y hab ha] at hb
      cases hb
    · rfl

theorem holdsBefore_right (h : WeakOrder lt) {d : Direction} (x : β) {ys : List β}
    (hy : ys.Pairwise (MayPrecede lt d)) :
  HoldsBefore (fun y => !goesFirst lt d x y) ys
  := by
  apply hy.imp
  intro a b hab hb
  cases d
  · simp only [goesFirst, Bool.not_not] at *
    cases ha : lt a x
    · rw [h.trans x a b ha hab] at hb
      cases hb
    · rfl
  · simp only [goesFirst, Bool.not_eq_true'] at *
    exact h.trans x b a hb hab

end MayPrecede

namespace Race

/-- Whether the element that is left last of the side that may keep one may come after the
other side. -/
def LastFits (lt : β → β → Bool) (d : Direction) (xs ys : List β) : Prop :=
  match d with
  | .forward => ∀ y ∈ ys, ∀ x, xs.getLast? = some x → MayPrecede lt d y x
  | .backward => ∀ x ∈ xs, ∀ y, ys.getLast? = some y → MayPrecede lt d x y

/-- Whether a race can end well: both sides are in the order in which they go out, and the
last element fits. -/
structure Sound (lt : β → β → Bool) (d : Direction) (r : Race β) : Prop where
  left : r.left.Pairwise (MayPrecede lt d)
  right : r.right.Pairwise (MayPrecede lt d)
  last : LastFits lt d r.left r.right

private theorem getLast?_of_drop {xs : List β} {n : Nat} {x : β}
    (h : (xs.drop n).getLast? = some x) :
  xs.getLast? = some x
  := by
  rw [List.getLast?_drop] at h
  split at h
  · cases h
  · exact h

theorem LastFits.drop {d : Direction} {xs ys : List β} (h : LastFits lt d xs ys) (m n : Nat) :
  LastFits lt d (xs.drop m) (ys.drop n)
  := by
  cases d
  · intro y hy x hx
    exact h y (List.mem_of_mem_drop hy) x (getLast?_of_drop hx)
  · intro x hx y hy
    exact h x (List.mem_of_mem_drop hx) y (getLast?_of_drop hy)

theorem step_drop (lt : β → β → Bool) (d : Direction) (r : Race β) :
  ∃ m n, (r.step lt d).2.left = r.left.drop m ∧ (r.step lt d).2.right = r.right.drop n
  := by
  unfold step
  split
  · rename_i x xs y ys hl hr
    rw [hl, hr]
    cases r.pace with
    | steps a b =>
      dsimp only
      split
      · exact ⟨1, 0, rfl, rfl⟩
      · exact ⟨0, 1, rfl, rfl⟩
    | leftLeap =>
      dsimp only
      split
      · exact ⟨_, 0, rfl, rfl⟩
      · exact ⟨_, 1, rfl, rfl⟩
    | rightLeap a =>
      dsimp only
      split
      · exact ⟨0, _, rfl, rfl⟩
      · exact ⟨1, _, left_afterLeaps _ _ _ _, right_afterLeaps _ _ _ _⟩
  · exact ⟨0, 0, rfl, rfl⟩

theorem Sound.step {d : Direction} {r : Race β} (h : Sound lt d r) :
  Sound lt d (r.step lt d).2
  := by
  obtain ⟨m, n, hl, hr⟩ := step_drop lt d r
  constructor
  · rw [hl]
    exact h.left.sublist (List.drop_sublist m _)
  · rw [hr]
    exact h.right.sublist (List.drop_sublist n _)
  · rw [hl, hr]
    exact h.last.drop m n

/-- An element that may precede the first one of a side may precede the whole side. -/
private theorem precedes_cons (h : WeakOrder lt) {d : Direction} {x y : β} {ys : List β}
    (hxy : MayPrecede lt d x y) (hy : (y :: ys).Pairwise (MayPrecede lt d)) :
  ∀ z ∈ y :: ys, MayPrecede lt d x z
  := by
  intro z hz
  rcases List.mem_cons.mp hz with rfl | hz
  · exact hxy
  · exact hxy.trans h ((List.pairwise_cons.mp hy).1 z hz)

/-- What goes out in front of two sides precedes what is left of both. -/
def Leads (lt : β → β → Bool) (d : Direction) (out xs ys : List β) : Prop :=
  out.Pairwise (MayPrecede lt d) ∧
    ∀ o ∈ out, (∀ z ∈ xs, MayPrecede lt d o z) ∧ ∀ z ∈ ys, MayPrecede lt d o z

theorem Leads.symm {d : Direction} {out xs ys : List β} (h : Leads lt d out xs ys) :
  Leads lt d out ys xs
  := ⟨h.1, fun o ho => (h.2 o ho).symm⟩

/-- The first element of a side leads if it may precede the first one of the other side. -/
theorem leads_first (h : WeakOrder lt) {d : Direction} {x y : β} {xs ys : List β}
    (hx : (x :: xs).Pairwise (MayPrecede lt d)) (hy : (y :: ys).Pairwise (MayPrecede lt d))
    (hxy : MayPrecede lt d x y) :
  Leads lt d [x] xs (y :: ys)
  := by
  refine ⟨List.pairwise_singleton _ _, ?_⟩
  intro o ho
  rw [List.mem_singleton.mp ho]
  exact ⟨(List.pairwise_cons.mp hx).1, precedes_cons h hxy hy⟩

section Leaps

variable {d : Direction} {n : Nat} {y : β} {xs ys : List β}
  (hx : xs.Pairwise (MayPrecede lt d)) (hy : (y :: ys).Pairwise (MayPrecede lt d))
  (hout : ∀ o ∈ xs.take n, MayPrecede lt d o y)

include hx hy hout

/-- The elements of a side that may precede the first one of the other side lead. -/
theorem leads_leap (h : WeakOrder lt) :
  Leads lt d (xs.take n) (xs.drop n) (y :: ys)
  := by
  rw [← List.take_append_drop n xs] at hx
  obtain ⟨htake, -, hdrop⟩ := List.pairwise_append.mp hx
  exact ⟨htake, fun o ho => ⟨hdrop o ho, precedes_cons h (hout o ho) hy⟩⟩

/-- With that first one behind them they lead if it may precede the rest of their side. -/
theorem leads_leap_first (h : WeakOrder lt) (hrest : ∀ z ∈ xs.drop n, MayPrecede lt d y z) :
  Leads lt d (xs.take n ++ [y]) (xs.drop n) ys
  := by
  obtain ⟨htake, hleap⟩ := leads_leap hx hy hout h
  constructor
  · apply List.pairwise_append.mpr ⟨htake, List.pairwise_singleton _ _, ?_⟩
    intro o ho z hz
    rw [List.mem_singleton.mp hz]
    apply hout o ho
  · intro o ho
    rw [List.mem_append, List.mem_singleton] at ho
    obtain ho | rfl := ho
    · exact ⟨(hleap o ho).1, fun z hz => (hleap o ho).2 z (List.mem_cons_of_mem y hz)⟩
    · exact ⟨hrest, (List.pairwise_cons.mp hy).1⟩

end Leaps

/-- What goes out in a step leads what is left. -/
theorem step_leads (h : WeakOrder lt) (d : Direction) (r : Race β) (hr : Sound lt d r) :
  Leads lt d (r.step lt d).1 (r.step lt d).2.left (r.step lt d).2.right
  := by
  obtain ⟨hx, hy, -⟩ := hr
  unfold step
  split
  · rename_i x xs y ys hleft hright
    rw [hleft] at hx
    rw [hright] at hy
    cases r.pace with
    | steps m n =>
      dsimp only
      split
      · rename_i hgoes
        dsimp only
        rw [hright]
        apply leads_first h hx hy (.of_goesFirst h hgoes)
      · rename_i hnot
        dsimp only
        rw [hleft]
        apply (leads_first h hy hx (.of_not_goesFirst h (Bool.eq_false_iff.mpr hnot))).symm
    | leftLeap =>
      have hcut := leading_cut d _ _ (MayPrecede.holdsBefore_left h y hx)
      dsimp only
      split
      · dsimp only
        rw [hright]
        apply leads_leap hx hy _ h
        intro o ho
        exact .of_goesFirst h (hcut.take o ho)
      · apply leads_leap_first hx hy _ h
        · intro z hz
          exact .of_not_goesFirst h (hcut.drop z hz)
        · intro o ho
          exact .of_goesFirst h (hcut.take o ho)
    | rightLeap m =>
      have hcut := leading_cut d _ _ (MayPrecede.holdsBefore_right h x hy)
      dsimp only
      split
      · dsimp only
        rw [hleft]
        apply (leads_leap hy hx _ h).symm
        intro o ho
        exact .of_not_goesFirst h (by simpa using hcut.take o ho)
      · dsimp only
        rw [left_afterLeaps, right_afterLeaps]
        apply (leads_leap_first hy hx _ h _).symm
        · intro o ho
          exact .of_not_goesFirst h (by simpa using hcut.take o ho)
        · intro z hz
          exact .of_goesFirst h (by simpa using hcut.drop z hz)
  · exact ⟨List.Pairwise.nil, nofun⟩

/-- A race that is not finished goes on. -/
theorem step_ne_nil (lt : β → β → Bool) (d : Direction) (r : Race β)
    (hf : r.finished d = false) :
  (r.step lt d).1 ≠ []
  := by
  unfold step
  split
  · rename_i x xs y ys el er
    cases r.pace with
    | steps m n =>
      dsimp only
      split <;> simp
    | leftLeap =>
      dsimp only
      generalize leading d (fun x => goesFirst lt d x y) (x :: xs) = n
      split
      · rename_i hn
        cases n with
        | zero =>
          have : finished d r = true := by
            rw [← hn]
            simp [finished, el, er]
          rw [this] at hf
          cases hf
        | succ n => simp
      · simp
    | rightLeap m =>
      dsimp only
      generalize leading d (fun y => !goesFirst lt d x y) (y :: ys) = n
      split
      · rename_i hn
        cases n with
        | zero =>
          have : finished d r = true := by
            rw [← hn]
            simp [finished, el, er]
          rw [this] at hf
          cases hf
        | succ n => simp
      · simp
  · rename_i hn
    exfalso
    cases hl : r.left with
    | nil =>
      rw [finished_left d r hl] at hf
      cases hf
    | cons x xs =>
      cases hr : r.right with
      | nil =>
        rw [finished_right d r hr] at hf
        cases hf
      | cons y ys => exact hn x xs y ys hl hr

theorem remainder_precedes {d : Direction} {r : Race β} (hr : Sound lt d r)
    (hf : r.finished d = true) :
  (r.remainder d).Pairwise (MayPrecede lt d)
  := by
  obtain ⟨hx, hy, hl⟩ := hr
  cases d
  · apply List.pairwise_append.mpr
    refine ⟨hy, hx, ?_⟩
    intro y hm x hn
    apply hl y hm x
    match hxs : r.left, hys : r.right with
    | [], _ => simp [hxs] at hn
    | [z], _ => simpa [hxs, eq_comm] using hn
    | _ :: _ :: _, [] => simp [hys] at hm
    | _ :: _ :: _, _ :: _ => simp [finished, hxs, hys] at hf
  · apply List.pairwise_append.mpr
    refine ⟨hx, hy, ?_⟩
    intro x hm y hn
    apply hl x hm y
    match hxs : r.left, hys : r.right with
    | _, [] => simp [hys] at hn
    | _, [z] => simpa [hys, eq_comm] using hn
    | [], _ :: _ :: _ => simp [hxs] at hm
    | _ :: _, _ :: _ :: _ => simp [finished, hxs, hys] at hf

theorem run_precedes (h : WeakOrder lt) (d : Direction) (n : Nat) (r : Race β)
    (hr : Sound lt d r) (hn : r.left.length + r.right.length ≤ n) :
  (run lt d n r).1.Pairwise (MayPrecede lt d)
  := by
  induction n generalizing r with
  | zero =>
    have hl : r.left = [] := List.eq_nil_of_length_eq_zero (by omega)
    exact remainder_precedes hr (finished_left d r hl)
  | succ n ih =>
    rw [run]
    split
    · rename_i hf
      exact remainder_precedes hr hf
    · rename_i hf
      obtain ⟨hout, hleads⟩ := step_leads h d r hr
      have hlen := (step_perm lt d r).length_eq
      have hpos := List.length_pos_iff.mpr (step_ne_nil lt d r (Bool.eq_false_iff.mpr hf))
      simp only [List.length_append] at hlen
      apply List.pairwise_append.mpr
      refine ⟨hout, ih _ hr.step (by omega), ?_⟩
      intro o ho z hz
      obtain hz | hz := List.mem_append.mp ((run_perm lt d n _).mem_iff.mp hz)
      · exact (hleads o ho).1 z hz
      · exact (hleads o ho).2 z hz

end Race

end Tunescript.Sorting
