import Tunescript.Proofs.Performance.Measures

/-!
# The alignment of parts

The parts of a section sound together: all of them start at the same measure, the one after the
longest part of the section before (`measureIndex_of_bar`).  The parts of a section stand behind its
checkpoint and behind its resets, which lead back to the measure after the checkpoint (`next_mark`);
the furthest measure that the section reaches is told by its longest part (`after_parts`).
-/

namespace Tunescript

/-- The number of bars among commands. -/
def bars (cs : List Command) : Nat := cs.countP fun c => c.verb = .measure

/-- The commands between two checkpoints or resets, with the one in front of them. -/
structure Part where
  /-- The checkpoint or reset. -/
  mark : Command
  /-- The commands behind it. -/
  body : List Command
  /-- None of them is a checkpoint or a reset. -/
  inner : ∀ c ∈ body, c.verb ≠ .checkpoint ∧ c.verb ≠ .reset

namespace Part

/-- All commands of a part. -/
def commands (p : Part) : List Command := p.mark :: p.body

/-- The number of bars of the longest part, none if there is no part. -/
def longest (ps : List Part) : Nat := (ps.map fun p => bars p.body).foldr max 0

end Part

/-- A section of a score: parts of which the first stands behind a checkpoint and the others behind
resets. -/
structure Section where
  /-- The first part. -/
  first : Part
  /-- The other parts. -/
  others : List Part
  /-- A checkpoint starts the section. -/
  checkpoint : first.mark.verb = .checkpoint
  /-- Resets separate its parts. -/
  resets : ∀ p ∈ others, p.mark.verb = .reset

namespace Section

/-- The parts of a section. -/
def parts (s : Section) : List Part := s.first :: s.others

/-- The commands of a section. -/
def commands (s : Section) : List Command := s.parts.flatMap Part.commands

/-- The measure at which a section starts that follows the given ones: each of them takes as many
measures as its longest part. -/
def start : List Section → Nat
  | [] => 0
  | s :: ss => Part.longest s.parts + start ss

end Section

namespace Measures

variable {m : Measures} {B : Int}

/-- In a part every bar starts one more measure. -/
theorem after_inner {cs : List Command} (hcs : ∀ c ∈ cs, c.verb ≠ .checkpoint ∧ c.verb ≠ .reset)
    (hm : m.index ≤ m.greatest) :
  m.after cs = ⟨m.index + bars cs, max m.greatest (m.index + bars cs), m.checkpoint⟩
  := by
  induction cs generalizing m with
  | nil => simp [bars, Int.max_eq_left hm]
  | cons c cs ih =>
    obtain ⟨⟨hcheckpoint, hreset⟩, hcs⟩ := List.forall_mem_cons.mp hcs
    rw [after_cons]
    by_cases hc : c.verb = .measure
    · have hbars : (bars (c :: cs) : Int) = bars cs + 1 := by
        simp [bars, hc]
      have hnext : m.next c = ⟨m.index + 1, max m.greatest (m.index + 1), m.checkpoint⟩ := by
        rw [next, hc]
      rw [hnext, ih hcs (Int.le_max_right _ _), hbars]
      simp only [mk.injEq, and_true]
      omega
    · have hbars : bars (c :: cs) = bars cs := by
        simp [bars, hc]
      have hnext : m.next c = m := by
        rw [next]
        split
        · contradiction
        · contradiction
        · contradiction
        · rfl
      rw [hnext, ih hcs hm, hbars]

/-- A checkpoint behind the furthest measure and a reset in the section lead in front of its first
measure. -/
theorem next_mark {c : Command}
    (hc : c.verb = .checkpoint ∧ m.greatest = B - 1 ∨ c.verb = .reset ∧ m.checkpoint = B) :
  m.next c = ⟨B - 1, m.greatest, B⟩
  := by
  obtain ⟨hverb, hm⟩ | ⟨hverb, hm⟩ := hc
  · simp [next, hverb, hm]
  · simp [next, hverb, hm]

/-- A part leads as many measures behind the start of its section as it has bars. -/
theorem after_part (p : Part)
    (hp : p.mark.verb = .checkpoint ∧ m.greatest = B - 1 ∨ p.mark.verb = .reset ∧ m.checkpoint = B)
    (hm : B - 1 ≤ m.greatest) :
  m.after p.commands = ⟨B - 1 + bars p.body, max m.greatest (B - 1 + bars p.body), B⟩
  := by
  rw [Part.commands, after_cons, next_mark hp, after_inner p.inner hm]

/-- Behind resets, parts reach as far as the longest of them, or as far as the section did
before. -/
theorem after_resets {ps : List Part} (hps : ∀ p ∈ ps, p.mark.verb = .reset) {n : Nat}
    (hcheckpoint : m.checkpoint = B) (hgreatest : m.greatest = B - 1 + n) :
  (m.after (ps.flatMap Part.commands)).checkpoint = B ∧
    (m.after (ps.flatMap Part.commands)).greatest = B - 1 + (max n (Part.longest ps) : Nat)
  := by
  induction ps generalizing m n with
  | nil => simp [Part.longest, hcheckpoint, hgreatest]
  | cons p ps ih =>
    obtain ⟨hp, hps⟩ := List.forall_mem_cons.mp hps
    have hpart := after_part p (.inr ⟨hp, hcheckpoint⟩) (by omega)
    have hmax : max n (Part.longest (p :: ps)) = max (max n (bars p.body)) (Part.longest ps) :=
      (Nat.max_assoc n _ _).symm
    rw [List.flatMap_cons, after_append, hpart, hmax]
    apply ih hps rfl
    dsimp only
    omega

/-- Up to any of its parts, a section reaches as far as the longest one so far. -/
theorem after_parts (s : Section) {rest : List Part} (hrest : rest <+: s.others)
    (hm : m.greatest = B - 1) :
  (m.after ((s.first :: rest).flatMap Part.commands)).checkpoint = B ∧
    (m.after ((s.first :: rest).flatMap Part.commands)).greatest =
      B - 1 + Part.longest (s.first :: rest)
  := by
  have hfirst := after_part s.first (.inl ⟨s.checkpoint, hm⟩) (Int.le_of_eq hm.symm)
  rw [List.flatMap_cons, after_append, hfirst]
  apply after_resets (n := bars s.first.body)
  · intro p hp
    apply s.resets p (hrest.subset hp)
  · rfl
  · dsimp only
    omega

/-- A section starts behind the longest parts of those before it. -/
theorem greatest_after_sections (ss : List Section) (hm : m.greatest = B - 1) :
  (m.after (ss.flatMap Section.commands)).greatest = B - 1 + Section.start ss
  := by
  induction ss generalizing m B with
  | nil => simp [Section.start, hm]
  | cons s ss ih =>
    obtain ⟨-, hgreatest⟩ := after_parts s (List.prefix_refl _) hm
    have hstart : (Section.start (s :: ss) : Int) = Part.longest s.parts + Section.start ss := by
      simp [Section.start]
    rw [List.flatMap_cons, after_append, ih (B := B + Part.longest s.parts), hstart]
    · omega
    · rw [Section.commands, Section.parts, hgreatest]
      omega

/-- Every part of a section starts in front of the measure that follows the sections before. -/
theorem after_mark (earlier : List Section) {s : Section} {before later : List Part} {p : Part}
    (hparts : s.parts = before ++ p :: later) :
  ∃ greatest : Int, Section.start earlier - 1 ≤ greatest ∧
    initial.after (earlier.flatMap Section.commands ++ before.flatMap Part.commands ++ [p.mark]) =
      ⟨Section.start earlier - 1, greatest, Section.start earlier⟩
  := by
  have hearlier : (initial.after (earlier.flatMap Section.commands)).greatest =
      Section.start earlier - 1 := by
    rw [greatest_after_sections (B := 0) earlier rfl]
    omega
  simp only [after_append, after_cons, after_nil]
  -- The first part stands behind the checkpoint, any other behind a reset, which still knows it.
  obtain _ | ⟨q, before⟩ := before
  · obtain ⟨rfl, -⟩ := List.cons_eq_cons.mp hparts
    refine ⟨_, Int.le_of_eq hearlier.symm, next_mark (.inl ⟨s.checkpoint, hearlier⟩)⟩
  · obtain ⟨rfl, hothers⟩ := List.cons_eq_cons.mp hparts
    obtain ⟨hcheckpoint, hgreatest⟩ := after_parts s ⟨p :: later, hothers.symm⟩ hearlier
    have hreset : p.mark.verb = .reset := by
      apply s.resets
      simp [hothers]
    refine ⟨_, ?_, next_mark (.inr ⟨hreset, hcheckpoint⟩)⟩
    omega

end Measures

namespace Performance

variable {α : Type} [Scalar α]

/-- If sections can be played, a bar in a part of one of them starts the measure that has as many
measures behind the sections before it as the part has bars before it. -/
theorem measureIndex_of_bar [Memory] (playback : Playback) {earlier later : List Section}
    {s : Section} {before after : List Part} {p : Part} {u v : List Command} {bar : Command}
    (hparts : s.parts = before ++ p :: after) (hbody : p.body = u ++ bar :: v)
    (hbar : bar.verb = .measure) {r : Performance α}
    (h : run playback ((earlier ++ s :: later).flatMap Section.commands) = .ok r) :
  ∃ q : Performance α, run playback (earlier.flatMap Section.commands ++
      before.flatMap Part.commands ++ p.mark :: (u ++ [bar])) = .ok q ∧
    q.transport.measureIndex = Section.start earlier + bars u
  := by
  have hsplit : (earlier ++ s :: later).flatMap Section.commands =
      earlier.flatMap Section.commands ++ before.flatMap Part.commands ++ p.mark :: (u ++ [bar]) ++
        (v ++ after.flatMap Part.commands ++ later.flatMap Section.commands) := by
    simp [Section.commands, hparts, Part.commands, hbody]
  rw [hsplit] at h
  obtain ⟨q, hq⟩ := exists_run_of_append h
  use q, hq
  obtain ⟨greatest, hle, hmark⟩ := Measures.after_mark earlier hparts
  have hu : ∀ c ∈ u, c.verb ≠ .checkpoint ∧ c.verb ≠ .reset := by
    intro c hc
    apply p.inner
    rw [hbody]
    apply List.mem_append_left _ hc
  have hmeasures : q.transport.measures =
      ((Measures.initial.after (earlier.flatMap Section.commands ++ before.flatMap Part.commands ++
        [p.mark])).after u).next bar := by
    rw [measures_run hq]
    simp
  rw [hmark, Measures.after_inner hu hle] at hmeasures
  have hindex : q.transport.measureIndex = Section.start earlier - 1 + bars u + 1 := by
    have hindex := congrArg Measures.index hmeasures
    rw [Measures.next, hbar] at hindex
    apply hindex
  omega

attribute [local instance] Memory.sixteenGigabytes in
/-- Behind a section of two measures, the second part of the next one starts with the third. -/
theorem measureIndex_of_bar_secondPart :
  let bar : Command := ⟨.measure, ['|']⟩
  let star : Command := ⟨.checkpoint, ['*']⟩
  let reset : Command := ⟨.reset, []⟩
  let voice : Command := ⟨.voice, "sine".toList⟩
  let note : Command := ⟨.note "An_4".toList, "1/4".toList⟩
  (∃ r : Performance Rat,
      run {} [star, bar, note, bar, reset, bar, star, voice, bar, reset, bar, note] = .ok r) ∧
    ∃ q : Performance Rat, run {} [star, bar, note, bar, reset, bar, star, voice, bar, reset, bar] =
        .ok q ∧
      q.transport.measureIndex = 2
  := by
  intro bar star reset voice note
  have hplayed : (run {} [star, bar, note, bar, reset, bar, star, voice, bar, reset, bar, note] :
      Except RunError (Performance Rat)).isOk := by
    decide +kernel
  let first : Section :=
    ⟨⟨star, [bar, note, bar], by decide⟩, [⟨reset, [bar], by decide⟩], rfl, by simp [reset]⟩
  let last : Part := ⟨reset, [bar, note], by decide⟩
  let second : Section := ⟨⟨star, [voice, bar], by decide⟩, [last], rfl, by simp [last, reset]⟩
  cases hrun : (run {} [star, bar, note, bar, reset, bar, star, voice, bar, reset, bar, note] :
      Except RunError (Performance Rat)) with
  | error e =>
    rw [hrun] at hplayed
    cases hplayed
  | ok r =>
    have hparts : second.parts = [second.first] ++ last :: [] := rfl
    have hbody : last.body = [] ++ bar :: [note] := rfl
    have hsections : run {} (([first] ++ second :: []).flatMap Section.commands) = .ok r := hrun
    exact ⟨⟨r, rfl⟩, measureIndex_of_bar {} hparts hbody rfl hsections⟩

end Performance

end Tunescript
