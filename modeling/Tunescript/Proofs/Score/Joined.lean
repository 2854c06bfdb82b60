import Mathlib.Data.List.Chain
import Mathlib.Tactic.Common
import Tunescript.Score.Command

/-!
# Joined checkpoints

Checkpoints that follow each other without another command between them start the same section, and
so do checkpoints of any number of stars.  Joining them makes every run of checkpoints one
checkpoint with one star.  What is joined depends on the parts of a list only as far as these are
joined themselves (`joined_append_congr`).  Checkpoints written without a gap between them are read
as one with all of their stars (`fused`), which joins them as well (`joined_fused`).
-/

namespace Tunescript.Score

/-- The checkpoint with one star. -/
def oneStar : Command := ⟨.checkpoint, ['*']⟩

/-- A command in front of joined commands; a checkpoint joins one that is there. -/
def join (c : Command) (cs : List Command) : List Command :=
  if c.verb = .checkpoint then
    if cs.head? = some oneStar then cs else oneStar :: cs
  else c :: cs

/-- The commands with every run of checkpoints made one checkpoint with one star. -/
def joined (cs : List Command) : List Command := cs.foldr join []

theorem joined_cons (c : Command) (cs : List Command) :
  joined (c :: cs) = join c (joined cs)
  := rfl

theorem verb_oneStar :
  oneStar.verb = .checkpoint
  := rfl

theorem join_checkpoint {c : Command} (h : c.verb = .checkpoint) (cs : List Command) :
  join c cs = join oneStar cs
  := by
  rw [join, join, if_pos h, if_pos verb_oneStar]

theorem head?_join_oneStar (cs : List Command) :
  (join oneStar cs).head? = some oneStar
  := by
  rw [join, if_pos verb_oneStar]
  split
  · rename_i h
    apply h
  · rfl

theorem join_of_head {cs : List Command} (h : cs.head? = some oneStar) :
  join oneStar cs = cs
  := by
  rw [join, if_pos verb_oneStar, if_pos h]

/-- A checkpoint in front of a checkpoint is joined with it. -/
theorem join_join {c d : Command} (hc : c.verb = .checkpoint) (hd : d.verb = .checkpoint)
    (cs : List Command) :
  join c (join d cs) = join d cs
  := by
  rw [join_checkpoint hc, join_checkpoint hd]
  apply join_of_head (head?_join_oneStar cs)

theorem foldr_join_joined (cs ds : List Command) :
  (joined cs).foldr join ds = cs.foldr join ds
  := by
  induction cs with
  | nil => rfl
  | cons c cs ih =>
    rw [joined_cons, List.foldr_cons, ← ih]
    by_cases hc : c.verb = .checkpoint
    · rw [join_checkpoint hc, join_checkpoint hc]
      cases hcs : joined cs with
      | nil => rfl
      | cons d es =>
        by_cases hd : d = oneStar
        · rw [hd, join_of_head rfl, List.foldr_cons, join_join rfl rfl]
        · have hhead : (d :: es).head? ≠ some oneStar := by
            rw [List.head?_cons]
            intro h
            apply hd (Option.some.inj h)
          rw [show join oneStar (d :: es) = oneStar :: d :: es by
            rw [join, if_pos verb_oneStar, if_neg hhead]]
          rfl
    · rw [show join c (joined cs) = c :: joined cs by rw [join, if_neg hc]]
      rfl

/-- Lists whose parts are joined alike are joined alike. -/
theorem joined_append_congr {cs cs' ds ds' : List Command} (hcs : joined cs = joined cs')
    (hds : joined ds = joined ds') :
  joined (cs ++ ds) = joined (cs' ++ ds')
  := by
  rw [joined, joined, List.foldr_append, List.foldr_append, ← foldr_join_joined cs,
    ← foldr_join_joined cs', hcs]
  rw [joined, joined] at hds
  rw [hds]

theorem joined_cons_congr (c : Command) {cs cs' : List Command} (h : joined cs = joined cs') :
  joined (c :: cs) = joined (c :: cs')
  := by
  rw [joined_cons, joined_cons, h]

/-- Commands that are checkpoints, at least one, are joined into one. -/
theorem joined_checkpoints {cs : List Command} (hne : cs ≠ [])
    (h : ∀ c ∈ cs, c.verb = .checkpoint) :
  joined cs = [oneStar]
  := by
  induction cs with
  | nil => cases hne rfl
  | cons c cs ih =>
    rw [joined_cons, join_checkpoint (h c List.mem_cons_self)]
    by_cases hnil : cs = []
    · rw [hnil]
      rfl
    · rw [ih hnil fun d hd => h d (List.mem_cons_of_mem _ hd)]
      rfl

/-- A command in front of others; a checkpoint adds its star to a checkpoint that is there. -/
def fuse (c : Command) : List Command → List Command
  | [] => [c]
  | d :: cs =>
    if c.verb = .checkpoint ∧ d.verb = .checkpoint then ⟨.checkpoint, '*' :: d.noun⟩ :: cs
    else c :: d :: cs

/-- The commands with every run of checkpoints made one checkpoint with all of their stars. -/
def fused (cs : List Command) : List Command := cs.foldr fuse []

theorem fused_cons (c : Command) (cs : List Command) :
  fused (c :: cs) = fuse c (fused cs)
  := rfl

theorem fuse_of_not_checkpoint {c : Command} (h : c.verb ≠ .checkpoint) (cs : List Command) :
  fuse c cs = c :: cs
  := by
  cases cs with
  | nil => rfl
  | cons d cs => rw [fuse, if_neg fun hand => h hand.1]

theorem joined_fuse (c : Command) (cs : List Command) :
  joined (fuse c cs) = join c (joined cs)
  := by
  cases cs with
  | nil => rfl
  | cons d cs =>
    rw [fuse]
    split
    · rename_i h
      rw [joined_cons, joined_cons, join_join h.1 h.2, join_checkpoint h.2, join_checkpoint rfl]
    · rfl

/-- Checkpoints fused into one are joined as before. -/
@[simp]
theorem joined_fused (cs : List Command) :
  joined (fused cs) = joined cs
  := by
  induction cs with
  | nil => rfl
  | cons c cs ih => rw [fused_cons, joined_fuse, ih, joined_cons]

/-- No checkpoint follows another. -/
def Separated (cs : List Command) : Prop :=
  cs.IsChain fun c d => ¬(c.verb = .checkpoint ∧ d.verb = .checkpoint)

theorem separated_map {f : Command → Command} (hf : ∀ c, (f c).verb = c.verb) {cs : List Command} :
  Separated (cs.map f) ↔ Separated cs
  := by
  rw [Separated, List.isChain_map]
  simp only [hf]
  rfl

theorem fused_of_separated {cs : List Command} (h : Separated cs) :
  fused cs = cs
  := by
  induction h with
  | nil => rfl
  | singleton c => rfl
  | cons_cons hcd h ih => rw [fused_cons, ih, fuse, if_neg hcd]

theorem separated_fuse (c : Command) {cs : List Command} (h : Separated cs) :
  Separated (fuse c cs)
  := by
  obtain _ | ⟨d, cs⟩ := cs
  · apply List.IsChain.singleton
  · rw [fuse]
    split
    · rename_i hboth
      obtain _ | ⟨e, cs⟩ := cs
      · apply List.IsChain.singleton
      · obtain ⟨hde, h⟩ := List.isChain_cons_cons.mp h
        apply List.IsChain.cons_cons _ h
        rintro ⟨-, he⟩
        apply hde ⟨hboth.2, he⟩
    · rename_i hnot
      apply List.IsChain.cons_cons hnot h

theorem separated_fused (cs : List Command) :
  Separated (fused cs)
  := by
  induction cs with
  | nil => apply List.IsChain.nil
  | cons c cs ih => apply separated_fuse c ih

/-- The checkpoints have one star each. -/
def OneStarred (cs : List Command) : Prop := ∀ c ∈ cs, c.verb = .checkpoint → c.noun = ['*']

theorem noun_ne_nil_of_fused {cs : List Command} (hcs : OneStarred cs) :
  ∀ c ∈ fused cs, c.verb = .checkpoint → c.noun ≠ []
  := by
  induction cs with
  | nil => apply List.forall_mem_nil
  | cons c cs ih =>
    have hc : c.verb = .checkpoint → c.noun ≠ [] := by
      intro hverb
      rw [hcs c List.mem_cons_self hverb]
      apply List.cons_ne_nil
    have ih := ih fun d hd => hcs d (List.mem_cons_of_mem c hd)
    rw [fused_cons]
    cases hfused : fused cs with
    | nil =>
      rw [fuse, List.forall_mem_singleton]
      apply hc
    | cons d ds =>
      rw [hfused] at ih
      rw [fuse]
      split
      · rw [List.forall_mem_cons]
        use fun _ => List.cons_ne_nil _ _
        intro e he
        apply ih e (List.mem_cons_of_mem d he)
      · rw [List.forall_mem_cons]
        exact ⟨hc, ih⟩

/-- Checkpoints of one star that still have one after they have been fused are separated. -/
theorem separated_of_oneStarred {cs : List Command} (hcs : OneStarred cs)
    (h : OneStarred (fused cs)) :
  Separated cs
  := by
  induction cs with
  | nil => apply List.IsChain.nil
  | cons c cs ih =>
    have hcs : OneStarred cs := fun d hd => hcs d (List.mem_cons_of_mem c hd)
    have hne := noun_ne_nil_of_fused hcs
    rw [fused_cons] at h
    cases hfused : fused cs with
    | nil =>
      rw [hfused] at ih
      have hseparated := fused_of_separated (ih hcs nofun)
      rw [← hseparated, hfused]
      apply List.IsChain.singleton
    | cons d ds =>
      rw [hfused] at h hne ih
      rw [fuse] at h
      split at h
      · -- Two stars have been fused, so that there is a checkpoint with more than one.
        rename_i hboth
        have hstars := h _ List.mem_cons_self rfl
        apply absurd (List.cons.inj hstars).2 (hne d List.mem_cons_self hboth.2)
      · rename_i hnot
        have hseparated := ih hcs fun e he => h e (List.mem_cons_of_mem c he)
        rw [fused_of_separated hseparated] at hfused
        rw [hfused] at hseparated ⊢
        apply List.IsChain.cons_cons hnot hseparated

end Tunescript.Score
