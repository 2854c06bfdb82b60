import Tunescript.Sorting.Runs

/-!
# Sorting rearranges

Whatever the comparison, sorting neither loses nor makes elements: `sort_perm`.  Each stage
keeps every element as often as it was there, from the first runs to the last merge.
-/

namespace Tunescript.Sorting

variable {β : Type}

private theorem count_take_drop [BEq β] (b : β) (n : Nat) (xs : List β) :
  (xs.take n).count b + (xs.drop n).count b = xs.count b
  := by
  rw [← List.count_append, List.take_append_drop]

theorem naturalRun_perm (lt : β → β → Bool) (xs : List β) :
  ((naturalRun lt xs).1 ++ (naturalRun lt xs).2).Perm xs
  := by
  cases xs with
  | nil => exact List.Perm.refl _
  | cons x xs =>
    have h := chain_append (fun a b => lt b a == xs.head?.any fun y => lt y x) x xs
    simp only [naturalRun]
    split
    · exact ((List.reverse_perm _).append_right _).trans (by simp [h])
    · simp [h]

theorem insert_perm (lt : β → β → Bool) (run : List β) (x : β) :
  (insert lt run x).Perm (x :: run)
  := by
  unfold insert
  apply List.perm_middle.trans
  rw [List.take_append_drop]

theorem foldl_insert_perm (lt : β → β → Bool) (run xs : List β) :
  (xs.foldl (insert lt) run).Perm (run ++ xs)
  := by
  induction xs generalizing run with
  | nil => simp
  | cons x xs ih =>
    apply (ih _).trans
    apply ((insert_perm lt run x).append_right xs).trans
    exact List.perm_middle.symm

theorem runs_perm (lt : β → β → Bool) (least : Nat) (xs : List β) :
  (runs lt least xs).flatten.Perm xs
  := by
  induction xs using runs.induct lt least with
  | case1 => simp [runs]
  | case2 x xs found missing ih =>
    rw [runs, List.flatten_cons]
    apply ((foldl_insert_perm lt _ _).append ih).trans
    rw [List.append_assoc, List.take_append_drop]
    exact naturalRun_perm lt (x :: xs)

namespace Race

theorem finished_left (d : Direction) (r : Race β) (h : r.left = []) :
  r.finished d = true
  := by
  unfold finished
  rw [h]
  cases d <;> simp

theorem finished_right (d : Direction) (r : Race β) (h : r.right = []) :
  r.finished d = true
  := by
  unfold finished
  rw [h]
  cases d <;> simp

theorem remainder_perm (d : Direction) (r : Race β) :
  (r.remainder d).Perm (r.left ++ r.right)
  := by
  cases d
  · exact List.perm_append_comm
  · exact List.Perm.refl _

@[simp]
theorem left_afterLeaps (d : Direction) (m n : Nat) (r : Race β) :
  (afterLeaps d m n r).left = r.left
  := by
  unfold afterLeaps
  split
  · rfl
  · split <;> rfl

@[simp]
theorem right_afterLeaps (d : Direction) (m n : Nat) (r : Race β) :
  (afterLeaps d m n r).right = r.right
  := by
  unfold afterLeaps
  split
  · rfl
  · split <;> rfl

theorem step_perm (lt : β → β → Bool) (d : Direction) (r : Race β) :
  ((r.step lt d).1 ++ ((r.step lt d).2.left ++ (r.step lt d).2.right)).Perm
    (r.left ++ r.right)
  := by
  classical
  rw [List.perm_iff_count]
  intro b
  unfold step
  split
  · rename_i x xs y ys hl hr
    rw [hl, hr]
    cases r.pace with
    | steps m n =>
      dsimp only
      split <;> simp only [List.count_append, List.count_cons, List.count_nil] <;> omega
    | leftLeap =>
      dsimp only
      generalize leading d _ (x :: xs) = n
      have hc := count_take_drop b n (x :: xs)
      split <;>
        simp only [List.count_append, List.count_cons, List.count_nil, hr] at * <;> omega
    | rightLeap m =>
      dsimp only
      generalize leading d _ (y :: ys) = n
      have hc := count_take_drop b n (y :: ys)
      split <;>
        simp only [List.count_append, List.count_cons, List.count_nil, hl, left_afterLeaps,
          right_afterLeaps] at * <;> omega
  · simp

theorem run_perm (lt : β → β → Bool) (d : Direction) (n : Nat) (r : Race β) :
  (run lt d n r).1.Perm (r.left ++ r.right)
  := by
  induction n generalizing r with
  | zero => exact remainder_perm d r
  | succ n ih =>
    rw [run]
    split
    · exact remainder_perm d r
    · exact ((ih _).append_left _).trans (step_perm lt d r)

end Race

theorem race_perm (lt : β → β → Bool) (d : Direction) (t : Nat) (xs ys : List β) :
  (race lt d t xs ys).1.Perm (xs ++ ys)
  := Race.run_perm lt d _ _

theorem mergeOverlap_perm (lt : β → β → Bool) (t : Nat) (xs ys : List β) :
  (mergeOverlap lt t xs ys).1.Perm (xs ++ ys)
  := by
  unfold mergeOverlap
  split
  · apply ((race_perm lt .forward t xs ys.tail).append_left _).trans
    cases ys with
    | nil => exact List.Perm.refl _
    | cons y ys =>
      change (y :: (xs ++ ys)).Perm (xs ++ y :: ys)
      exact List.perm_middle.symm
  · apply (List.reverse_perm _).trans
    apply ((race_perm lt .backward t xs.reverse.tail ys.reverse).append_left _).trans
    rw [← List.append_assoc]
    apply List.Perm.append _ (List.reverse_perm ys)
    have h : xs.getLast?.toList ++ xs.reverse.tail = xs.reverse := by
      rw [← List.head?_reverse]
      cases xs.reverse <;> rfl
    rw [h]
    exact List.reverse_perm xs

theorem mergeRuns_perm (lt : β → β → Bool) (t : Nat) (xs ys : List β) :
  (mergeRuns lt t xs ys).1.Perm (xs ++ ys)
  := by
  simp only [mergeRuns]
  generalize beforeRight lt xs ys = m
  generalize notAfterLeft lt (xs.drop m) ys = n
  split
  · exact List.Perm.refl _
  · classical
    have ho := mergeOverlap_perm lt t (xs.drop m) (ys.take n)
    rw [List.perm_iff_count] at ho ⊢
    intro b
    have h₁ := ho b
    have h₂ := count_take_drop b m xs
    have h₃ := count_take_drop b n ys
    simp only [List.count_append] at *
    omega

/-- The elements of the runs that wait, in order. -/
def Waiting.elements (waiting : Waiting β) : List β :=
  (waiting.map Prod.snd).flatten

theorem collapse_perm (lt : β → β → Bool) (depth t : Nat) (waiting : Waiting β)
    (last : List β) :
  (Waiting.elements (collapse lt depth t waiting last).2.1
      ++ (collapse lt depth t waiting last).2.2).Perm
    (Waiting.elements waiting ++ last)
  := by
  induction waiting generalizing t last with
  | nil => exact List.Perm.refl _
  | cons w waiting ih =>
    obtain ⟨d, run⟩ := w
    rw [collapse]
    split
    · apply (ih _ _).trans
      apply ((mergeRuns_perm lt t run last).append_left _).trans
      simp only [Waiting.elements, List.map_cons, List.flatten_cons]
      rw [← List.append_assoc]
      exact List.perm_append_comm.append_right last
    · exact List.Perm.refl _

theorem mergeAll_perm (lt : β → β → Bool) (t : Nat) (runs : List (List β)) :
  (mergeAll lt t runs).Perm runs.flatten
  := by
  induction t, runs using mergeAll.induct lt with
  | case1 => simp [mergeAll]
  | case2 => simp [mergeAll]
  | case3 t last previous =>
    rw [mergeAll]
    apply (mergeRuns_perm lt t previous last).trans
    simpa using List.perm_append_comm
  | case4 t last previous third waiting h merged t' e ih =>
    rw [mergeAll, if_pos h, e]
    apply ih.trans
    have hm := mergeRuns_perm lt t third previous
    rw [e] at hm
    simp only [List.flatten_cons, ← List.append_assoc]
    apply List.Perm.append_right
    rw [List.append_assoc]
    exact (hm.trans List.perm_append_comm).append_left last
  | case5 t last previous third waiting h merged t' e ih =>
    rw [mergeAll, if_neg h, e]
    apply ih.trans
    have hm := mergeRuns_perm lt t previous last
    rw [e] at hm
    simp only [List.flatten_cons, ← List.append_assoc]
    apply List.Perm.append_right
    exact (hm.trans List.perm_append_comm).append_right third

theorem mergeFrom_perm (lt : β → β → Bool) (n start t : Nat) (waiting : Waiting β)
    (last : List β) (next : List (List β)) :
  (mergeFrom lt n start t waiting last next).Perm
    (Waiting.elements waiting ++ last ++ next.flatten)
  := by
  induction next generalizing start t waiting last with
  | nil =>
    apply (mergeAll_perm lt t _).trans
    simpa [Waiting.elements] using List.perm_append_comm
  | cons run next ih =>
    rw [mergeFrom]
    apply (ih _ _ _ _).trans
    have hc := collapse_perm lt (boundaryDepth n start last.length run.length) t waiting last
    simp only [Waiting.elements, List.map_cons, List.flatten_cons, ← List.append_assoc] at *
    apply List.Perm.append_right
    apply List.Perm.append_right
    exact List.perm_append_comm.trans hc

/-- Sorting a list rearranges it, whatever the comparison is. -/
theorem sort_perm (lt : β → β → Bool) (xs : List β) :
  (sort lt xs).Perm xs
  := by
  have h := runs_perm lt (leastRun xs.length) xs
  unfold sort
  split
  · rename_i e
    rwa [e] at h
  · rename_i run next e
    rw [e] at h
    exact (mergeFrom_perm lt _ _ _ _ _ _).trans (by simpa [Waiting.elements] using h)

end Tunescript.Sorting
