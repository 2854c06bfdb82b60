import Tunescript.Sorting.Precedence

/-!
# Sorting orders

For a comparison that is a weak order, sorting puts a list in order: `sort_ordered`.  Natural
runs are in order and stay so when elements are inserted, and a merge of two runs in order is
in order: its searches find what comes before all of the other run and what comes after it,
and the race orders what lies between.
-/

namespace Tunescript.Sorting

variable {β : Type} {lt : β → β → Bool}

/-! ### Merging -/

theorem race_precedes (h : WeakOrder lt) (d : Direction) (t : Nat) {xs ys : List β}
    (hx : xs.Pairwise (MayPrecede lt d)) (hy : ys.Pairwise (MayPrecede lt d))
    (hl : Race.LastFits lt d xs ys) :
  (race lt d t xs ys).1.Pairwise (MayPrecede lt d)
  := Race.run_precedes h d _ ⟨.steps 0 0, t, xs, ys⟩ ⟨hx, hy, hl⟩ (Nat.le_refl _)

theorem ordered_reverse_iff {xs : List β} :
  Ordered lt xs.reverse ↔ xs.Pairwise (MayPrecede lt .backward)
  := List.pairwise_reverse

theorem precedes_reverse {xs : List β} (h : Ordered lt xs) :
  xs.reverse.Pairwise (MayPrecede lt .backward)
  := List.pairwise_reverse.mpr h

theorem mergeOverlap_ordered (h : WeakOrder lt) (t : Nat) {xs ys : List β}
    (hx : Ordered lt xs) (hy : Ordered lt ys)
    (hfirst : ∀ x ∈ xs, ∀ y, ys.head? = some y → lt y x = true)
    (hlast : ∀ y ∈ ys, ∀ x, xs.getLast? = some x → lt y x = true) :
  Ordered lt (mergeOverlap lt t xs ys).1
  := by
  unfold mergeOverlap
  split
  · have hr := race_precedes h .forward t hx (hy.sublist (List.tail_sublist ys))
      fun y hm x hn => h.asymm _ _ (hlast y (List.mem_of_mem_tail hm) x hn)
    cases ys with
    | nil => exact hr
    | cons y ys =>
      apply List.Pairwise.cons _ hr
      intro z hz
      rcases List.mem_append.mp ((race_perm lt .forward t xs ys).mem_iff.mp hz) with hz | hz
      · exact h.asymm _ _ (hfirst z hz y rfl)
      · exact (List.pairwise_cons.mp hy).1 z hz
  · rename_i hlen
    rcases List.eq_nil_or_concat xs with rfl | ⟨zs, x, rfl⟩
    · simp at hlen
    · apply ordered_reverse_iff.mpr
      simp only [List.concat_eq_append] at *
      have hz : zs.reverse.Pairwise (MayPrecede lt .backward) :=
        precedes_reverse (List.pairwise_append.mp hx).1
      have hr := race_precedes h .backward t hz (precedes_reverse hy) fun a ha y hn =>
        h.asymm _ _ (hfirst a (by simp [List.mem_reverse.mp ha]) y (by simpa using hn))
      simp only [List.getLast?_append, List.getLast?_singleton, Option.some_or,
        Option.toList_some, List.reverse_append, List.reverse_singleton,
        List.singleton_append, List.tail_cons]
      apply List.Pairwise.cons _ hr
      intro z hm
      rcases List.mem_append.mp ((race_perm lt .backward t _ _).mem_iff.mp hm) with hm | hm
      · exact (List.pairwise_append.mp hx).2.2 z (List.mem_reverse.mp hm) x (by simp)
      · exact h.asymm _ _ (hlast z (List.mem_reverse.mp hm) x (by simp))

theorem beforeRight_spec (h : WeakOrder lt) {xs ys : List β} (hx : Ordered lt xs)
    {y : β} (hy : ys.head? = some y) :
  (∀ x ∈ xs.take (beforeRight lt xs ys), lt y x = false)
    ∧ ∀ x ∈ xs.drop (beforeRight lt xs ys), lt y x = true
  := by
  cases ys with
  | nil => cases hy
  | cons z ys =>
    cases hy
    have hc := leading_cut .forward _ _ (MayPrecede.holdsBefore_left h (d := .forward) y hx)
    constructor
    · intro x hm
      simpa [goesFirst] using hc.take x hm
    · intro x hm
      simpa [goesFirst] using hc.drop x hm

theorem notAfterLeft_spec (h : WeakOrder lt) {xs ys : List β} (hy : Ordered lt ys)
    {x : β} (hx : xs.getLast? = some x) :
  (∀ y ∈ ys.take (notAfterLeft lt xs ys), lt y x = true)
    ∧ ∀ y ∈ ys.drop (notAfterLeft lt xs ys), lt y x = false
  := by
  have hc := leading_cut .backward _ _ (MayPrecede.holdsBefore_right h x (precedes_reverse hy))
  simp only [notAfterLeft, hx]
  have ht := hc.take
  have hd := hc.drop
  rw [List.take_reverse] at ht
  rw [List.drop_reverse] at hd
  constructor
  · intro y hm
    simpa [goesFirst] using hd y (List.mem_reverse.mpr hm)
  · intro y hm
    simpa [goesFirst] using ht y (List.mem_reverse.mpr hm)

theorem WeakOrder.irrefl (h : WeakOrder lt) (x : β) :
  lt x x = false
  := by
  cases hx : lt x x
  · rfl
  · exact hx.symm.trans (h.asymm x x hx)

/-- No element of a list in order comes after its last one. -/
theorem Ordered.getLast (h : WeakOrder lt) {xs : List β} (hx : Ordered lt xs) {x : β}
    (hl : xs.getLast? = some x) :
  ∀ a ∈ xs, lt x a = false
  := by
  obtain ⟨zs, rfl⟩ := List.getLast?_eq_some_iff.mp hl
  intro a ha
  rcases List.mem_append.mp ha with ha | ha
  · exact (List.pairwise_append.mp hx).2.2 a ha x (by simp)
  · rw [List.mem_singleton.mp ha]
    exact h.irrefl x

/-- What the first element of a list in order does not come before, none of its elements does. -/
theorem Ordered.head (h : WeakOrder lt) {a y : β} {ys : List β} (hy : Ordered lt ys)
    (hhead : ys.head? = some y) (ha : lt y a = false) :
  ∀ z ∈ ys, lt z a = false
  := by
  obtain ⟨zs, rfl⟩ := List.head?_eq_some_iff.mp hhead
  intro z hz
  obtain rfl | hz := List.mem_cons.mp hz
  · exact ha
  · exact h.trans a y z ha ((List.pairwise_cons.mp hy).1 z hz)

section Parts

variable {as bs cs ds : List β} (hleft : Ordered lt (as ++ bs)) (hright : Ordered lt (cs ++ ds))
  (hfront : ∀ a ∈ as, ∀ z ∈ cs ++ ds, lt z a = false)
  (hback : ∀ b ∈ bs, ∀ z ∈ ds, lt z b = false)

include hleft hright hfront hback

/-- The parts of two lists that may overlap stand in order between the others once they are in order
together. -/
theorem ordered_around {out : List β} (hout : Ordered lt out)
    (hmem : ∀ o ∈ out, o ∈ bs ∨ o ∈ cs) :
  Ordered lt (as ++ out ++ ds)
  := by
  obtain ⟨has, -, hab⟩ := List.pairwise_append.mp hleft
  obtain ⟨-, hds, hcd⟩ := List.pairwise_append.mp hright
  apply List.pairwise_append.mpr ⟨List.pairwise_append.mpr ⟨has, hout, ?_⟩, hds, ?_⟩
  · intro a ha o ho
    obtain ho | ho := hmem o ho
    · exact hab a ha o ho
    · exact hfront a ha o (List.mem_append_left ds ho)
  · intro o ho z hz
    obtain ho | ho := List.mem_append.mp ho
    · exact hfront o ho z (List.mem_append_right cs hz)
    · obtain ho | ho := hmem o ho
      · exact hback o ho z hz
      · exact hcd o ho z hz

end Parts

theorem mergeRuns_ordered (h : WeakOrder lt) (t : Nat) {xs ys : List β}
    (hx : Ordered lt xs) (hy : Ordered lt ys) :
  Ordered lt (mergeRuns lt t xs ys).1
  := by
  cases hhead : ys.head? with
  | none =>
    obtain rfl := List.head?_eq_none_iff.mp hhead
    have hnone : notAfterLeft lt (xs.drop (beforeRight lt xs [])) [] = 0 := by
      simp [notAfterLeft, beforeRight]
    simpa only [mergeRuns, hnone, if_true, List.append_nil] using hx
  | some y =>
    obtain ⟨hbefore, hbehind⟩ := beforeRight_spec h hx hhead
    simp only [mergeRuns]
    generalize beforeRight lt xs ys = m at hbefore hbehind
    have hleft := hx
    rw [← List.take_append_drop m xs] at hleft
    have hfront (a : β) (ha : a ∈ xs.take m) := hy.head h hhead (hbefore a ha)
    cases hlast : (xs.drop m).getLast? with
    | none =>
      have hnone : notAfterLeft lt (xs.drop m) ys = 0 := by simp [notAfterLeft, hlast]
      have htake : xs.take m = xs :=
        List.take_of_length_le (List.drop_eq_nil_iff.mp (List.getLast?_eq_none_iff.mp hlast))
      rw [if_pos hnone]
      rw [htake] at hfront
      exact List.pairwise_append.mpr ⟨hx, hy, hfront⟩
    | some x =>
      obtain ⟨hupTo, hafter⟩ := notAfterLeft_spec h hy hlast
      have hdrop : Ordered lt (xs.drop m) := hx.sublist (List.drop_sublist m xs)
      have hback (a : β) (ha : a ∈ xs.drop m) (z : β)
          (hz : z ∈ ys.drop (notAfterLeft lt (xs.drop m) ys)) : lt z a = false :=
        h.trans a x z (hdrop.getLast h hlast a ha) (hafter z hz)
      generalize notAfterLeft lt (xs.drop m) ys = n at hupTo hafter hback
      split
      · rename_i hn
        rw [hn, List.drop_zero] at hback
        have hright : Ordered lt ([] ++ ys) := hy
        have hall := ordered_around hleft hright hfront hback hdrop fun o ho => .inl ho
        rwa [List.take_append_drop] at hall
      · rename_i hn
        rw [← List.take_append_drop n ys] at hfront
        have hright := hy
        rw [← List.take_append_drop n ys] at hright
        apply ordered_around hleft hright hfront hback
        · apply mergeOverlap_ordered h t hdrop (hy.sublist (List.take_sublist n ys))
          · intro a ha z hz
            rw [List.head?_take, if_neg hn, hhead] at hz
            cases hz
            exact hbehind a ha
          · intro z hz a ha
            rw [hlast] at ha
            cases ha
            exact hupTo z hz
        · intro o ho
          rwa [(mergeOverlap_perm lt t (xs.drop m) (ys.take n)).mem_iff, List.mem_append] at ho

theorem collapse_ordered (h : WeakOrder lt) (depth t : Nat) {waiting : Waiting β}
    {last : List β} (hw : ∀ w ∈ waiting, Ordered lt w.2) (hl : Ordered lt last) :
  (∀ w ∈ (collapse lt depth t waiting last).2.1, Ordered lt w.2)
    ∧ Ordered lt (collapse lt depth t waiting last).2.2
  := by
  induction waiting generalizing t last with
  | nil => exact ⟨hw, hl⟩
  | cons w waiting ih =>
    obtain ⟨d, run⟩ := w
    rw [collapse]
    split
    · apply ih _ (fun v hv => hw v (List.mem_cons_of_mem _ hv))
      exact mergeRuns_ordered h t (hw (d, run) List.mem_cons_self) hl
    · exact ⟨hw, hl⟩

theorem mergeAll_ordered (h : WeakOrder lt) (t : Nat) {runs : List (List β)}
    (hr : ∀ run ∈ runs, Ordered lt run) :
  Ordered lt (mergeAll lt t runs)
  := by
  induction t, runs using mergeAll.induct lt with
  | case1 =>
    rw [mergeAll]
    exact List.Pairwise.nil
  | case2 t run =>
    rw [mergeAll]
    exact hr run (by simp)
  | case3 t last previous =>
    rw [mergeAll]
    exact mergeRuns_ordered h t (hr previous (by simp)) (hr last (by simp))
  | case4 t last previous third waiting hlen merged t' e ih =>
    have hm := mergeRuns_ordered h t (hr third (by simp)) (hr previous (by simp))
    rw [e] at hm
    rw [mergeAll, if_pos hlen, e]
    apply ih
    intro run hrun
    simp only [List.mem_cons] at hrun hr
    rcases hrun with rfl | rfl | hrun
    · exact hr run (.inl rfl)
    · exact hm
    · exact hr run (.inr (.inr (.inr hrun)))
  | case5 t last previous third waiting hlen merged t' e ih =>
    have hm := mergeRuns_ordered h t (hr previous (by simp)) (hr last (by simp))
    rw [e] at hm
    rw [mergeAll, if_neg hlen, e]
    apply ih
    intro run hrun
    simp only [List.mem_cons] at hrun hr
    rcases hrun with rfl | hrun
    · exact hm
    · exact hr run (.inr (.inr hrun))

theorem mergeFrom_ordered (h : WeakOrder lt) (n start t : Nat) {waiting : Waiting β}
    {last : List β} {next : List (List β)} (hw : ∀ w ∈ waiting, Ordered lt w.2)
    (hl : Ordered lt last) (hn : ∀ run ∈ next, Ordered lt run) :
  Ordered lt (mergeFrom lt n start t waiting last next)
  := by
  induction next generalizing start t waiting last with
  | nil =>
    apply mergeAll_ordered h
    intro run hrun
    rcases List.mem_cons.mp hrun with rfl | hrun
    · exact hl
    · obtain ⟨w, hm, rfl⟩ := List.mem_map.mp hrun
      exact hw w hm
  | cons run next ih =>
    obtain ⟨hr, hm⟩ :=
      collapse_ordered h (boundaryDepth n start last.length run.length) t hw hl
    rw [mergeFrom]
    apply ih
    · intro w hin
      rcases List.mem_cons.mp hin with rfl | hin
      · exact hm
      · exact hr w hin
    · exact hn run List.mem_cons_self
    · exact fun r hin => hn r (List.mem_cons_of_mem _ hin)

/-! ### Runs -/

theorem chain_pairwise {related : β → β → Bool} {R : β → β → Prop}
    (htrans : ∀ a b c, R a b → R b c → R a c) (hR : ∀ a b, related a b = true → R a b)
    (x : β) (xs : List β) :
  (x :: (chain related x xs).1).Pairwise R
  := by
  induction xs generalizing x with
  | nil => exact List.pairwise_singleton R x
  | cons y ys ih =>
    rw [chain]
    split
    · rename_i hxy
      have hy := ih y
      apply List.Pairwise.cons _ hy
      intro z hz
      rcases List.mem_cons.mp hz with rfl | hz
      · exact hR x z hxy
      · exact htrans x y z (hR x y hxy) ((List.pairwise_cons.mp hy).1 z hz)
    · exact List.pairwise_singleton R x

theorem naturalRun_ordered (h : WeakOrder lt) (xs : List β) :
  Ordered lt (naturalRun lt xs).1
  := by
  cases xs with
  | nil => exact List.Pairwise.nil
  | cons x xs =>
    simp only [naturalRun]
    cases xs.head?.any fun y => lt y x with
    | true =>
      apply List.pairwise_reverse.mpr
      apply List.Pairwise.imp (R := fun a b => lt b a = true) (fun hab => h.asymm _ _ hab)
      apply chain_pairwise
      · intro a b c hab hbc
        cases hca : lt c a
        · have := h.trans a c b hca (h.asymm c b hbc)
          rw [hab] at this
          cases this
        · rfl
      · intro a b hab
        simpa using hab
    | false =>
      apply chain_pairwise
      · exact h.trans
      · intro a b hab
        simpa using hab

theorem insert_ordered (h : WeakOrder lt) {run : List β} (hr : Ordered lt run) (x : β) :
  Ordered lt (insert lt run x)
  := by
  have hc := bisect_cut .forward _ _ (MayPrecede.holdsBefore_left h (d := .forward) x hr)
  have ht := hc.take
  have hd := hc.drop
  simp only [goesFirst, Bool.not_eq_true', Bool.not_eq_false'] at ht hd
  simp only [insert]
  generalize bisect .forward (fun y => !lt x y) run = n at ht hd
  have hrn := hr
  rw [← List.take_append_drop n run] at hrn
  obtain ⟨h₁, h₂, h₁₂⟩ := List.pairwise_append.mp hrn
  apply List.pairwise_append.mpr
  refine ⟨h₁, List.Pairwise.cons (fun b hb => h.asymm _ _ (hd b hb)) h₂, ?_⟩
  intro a ha b hb
  rcases List.mem_cons.mp hb with rfl | hb
  · exact ht a ha
  · exact h₁₂ a ha b hb

theorem foldl_insert_ordered (h : WeakOrder lt) {run : List β} (hr : Ordered lt run)
    (xs : List β) :
  Ordered lt (xs.foldl (insert lt) run)
  := by
  induction xs generalizing run with
  | nil => exact hr
  | cons x xs ih => exact ih (insert_ordered h hr x)

theorem runs_ordered (h : WeakOrder lt) (least : Nat) (xs : List β) :
  ∀ run ∈ runs lt least xs, Ordered lt run
  := by
  induction xs using runs.induct lt least with
  | case1 => simp [runs]
  | case2 x xs found missing ih =>
    intro run hrun
    rw [runs] at hrun
    rcases List.mem_cons.mp hrun with rfl | hrun
    · exact foldl_insert_ordered h (naturalRun_ordered h _) _
    · exact ih run hrun

/-- Sorting a list puts it in order. -/
theorem sort_ordered (h : WeakOrder lt) (xs : List β) :
  Ordered lt (sort lt xs)
  := by
  have hr := runs_ordered h (leastRun xs.length) xs
  unfold sort
  split
  · exact List.Pairwise.nil
  · rename_i run next e
    rw [e] at hr
    exact mergeFrom_ordered h _ _ _ (by simp) (hr run List.mem_cons_self)
      fun r hin => hr r (List.mem_cons_of_mem _ hin)

end Tunescript.Sorting
