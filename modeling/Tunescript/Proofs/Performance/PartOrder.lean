import Mathlib.Data.List.Perm.Basic
import Tunescript.Proofs.Performance.Agreement
import Tunescript.Proofs.Performance.Alignment

/-!
# The order of parts

A part of a section that names its voice and starts with a bar sounds the same wherever it stands in
the section: what the parts before it leave behind is overwritten before it is heard
(`follows_section`).  So the parts of a section can be put into any order (`run_permuted`).  The
commands behind the section hear of it only how far it reaches, if they start with a checkpoint and
name a voice and start a measure before their first note.
-/

namespace Tunescript

/-- A part that names its voice and starts a measure, behind which only bars, notes and comments
follow. -/
def Part.Voiced (p : Part) : Prop :=
  ∃ voice bar rest, p.body = voice :: bar :: rest ∧ voice.verb = .voice ∧ bar.verb = .measure ∧
    ∀ c ∈ rest, c.verb = .measure ∨ c.verb.isNote ∨ c.verb = .comment

/-- There are no commands, or they start with a checkpoint and name a voice and start a measure
before their first note. -/
def Resumes (cs : List Command) : Prop :=
  cs = [] ∨ ∃ star u v, cs = star :: (u ++ v) ∧ star.verb = .checkpoint ∧
    (∀ c ∈ u, c.verb.isNote = false) ∧ (∃ c ∈ u, c.verb = .voice) ∧ ∃ c ∈ u, c.verb = .measure

/-- A part takes nothing from the transport but the measure in front of it. -/
theorem Part.Voiced.allowsAll {p : Part} (h : p.Voiced) :
  ({ index := true } : Known).AllowsAll p.body
  := by
  obtain ⟨⟨_, _⟩, ⟨_, _⟩, rest, hbody, rfl, rfl, hrest⟩ := h
  rw [hbody]
  refine ⟨trivial, rfl, Known.allowsAll_of_known rfl rfl rfl (.inr ?_)⟩
  intro c hc hcheckpoint
  have hverb := hrest c hc
  simp [hcheckpoint, Verb.isNote] at hverb

/-- A part leaves the setting of the measures and the section alone. -/
theorem Part.Voiced.inside {p : Part} (h : p.Voiced) :
  ∀ c ∈ p.body, Transport.Inside c
  := by
  obtain ⟨voice, bar, rest, hbody, hvoice, hbar, hrest⟩ := h
  have hverb : ∀ c ∈ p.body,
      c.verb = .voice ∨ c.verb = .measure ∨ c.verb.isNote ∨ c.verb = .comment := by
    simp only [hbody, List.forall_mem_cons]
    exact ⟨.inl hvoice, .inr (.inl hbar), fun c hc => .inr (hrest c hc)⟩
  intro c hc
  have hverb := hverb c hc
  refine ⟨?_, ?_, ?_⟩
  · intro h
    simp [h, Verb.isNote] at hverb
  · intro h
    simp [h, Verb.isNote] at hverb
  · intro h
    simp [h, Verb.isNote] at hverb

/-- What resumes takes nothing from the transport but the furthest measure. -/
theorem Resumes.allowsAll {cs : List Command} (h : Resumes cs) :
  ({ greatest := true } : Known).AllowsAll cs
  := by
  obtain rfl | ⟨⟨_, _⟩, u, v, rfl, rfl, hu, ⟨c, hc, hvoice⟩, ⟨d, hd, hmeasure⟩⟩ := h
  · trivial
  refine ⟨rfl, Known.allowsAll_append (Known.allowsAll_of_not_note rfl rfl hu) ?_⟩
  rw [Known.foldl_after]
  apply Known.allowsAll_of_known
  · rfl
  · apply List.any_eq_true.mpr ⟨d, hd, decide_eq_true hmeasure⟩
  · apply List.any_eq_true.mpr ⟨c, hc, decide_eq_true hvoice⟩
  · apply Or.inl rfl

variable {α : Type} [Scalar α]

/-- The schedule is that of the given parts one after the other, each played from the start of the
section. -/
structure Schedule.Follows (s : Transport α) (bodies : List (List Command))
    (x : Schedule α) : Prop where
  /-- All commands make sense exactly if those of every part do. -/
  isOk_iff : x.outcome.isOk ↔ ∀ b ∈ bodies, (s.schedule b).outcome.isOk
  /-- Then the events are those of the parts, and the section goes on. -/
  of_ok : ∀ t, x.outcome = .ok t →
    x.events = bodies.flatMap (fun b => (s.schedule b).events) ∧ s.Agree {} t

namespace Transport

variable {s t : Transport α} {bodies bodies' : List (List Command)} {cs ds : List Command}

theorem follows_nil (h : s.Agree {} t) :
  (t.schedule []).Follows s []
  := by
  constructor
  · simp [schedule_nil, Except.isOk, Except.toBool]
  · rintro u ⟨⟩
    exact ⟨rfl, h⟩

/-- Parts behind parts follow if they do so from where these lead. -/
theorem follows_append (hcs : (t.schedule cs).Follows s bodies)
    (hds : ∀ u, s.Agree {} u → (u.schedule ds).Follows s bodies') :
  (t.schedule (cs ++ ds)).Follows s (bodies ++ bodies')
  := by
  cases houtcome : (t.schedule cs).outcome with
  | error e =>
    have hnot : ¬∀ b ∈ bodies, (s.schedule b).outcome.isOk := by
      rw [← hcs.isOk_iff, houtcome]
      nofun
    rw [schedule_append_of_error houtcome]
    constructor
    · rw [houtcome]
      constructor
      · nofun
      · intro h
        cases hnot fun b hb => h b (List.mem_append_left _ hb)
    · rw [houtcome]
      nofun
  | ok u =>
    obtain ⟨hevents, hagree⟩ := hcs.of_ok u houtcome
    have hbodies : ∀ b ∈ bodies, (s.schedule b).outcome.isOk := by
      apply hcs.isOk_iff.mp
      rw [houtcome]
      rfl
    have hrest := hds u hagree
    rw [schedule_append houtcome]
    constructor
    · rw [hrest.isOk_iff]
      simp only [List.mem_append]
      constructor
      · rintro h b (hb | hb)
        · apply hbodies b hb
        · apply h b hb
      · intro h b hb
        apply h b (.inr hb)
    · intro v hv
      obtain ⟨hevents', hagree'⟩ := hrest.of_ok v hv
      rw [hevents, hevents', List.flatMap_append]
      exact ⟨rfl, hagree'⟩

/-- A part that starts at the start of the section plays as it does there. -/
theorem follows_part {p : Part} (hp : p.Voiced) {u : Transport α}
    (hmark : t.play p.mark = .ok ([], u)) (h : s.Agree { index := true } u) :
  (t.schedule p.commands).Follows s [p.body]
  := by
  obtain ⟨hevents, hbehind⟩ := schedule_agree h hp.allowsAll
  rw [Part.commands, schedule_cons_of_ok hmark, List.nil_append]
  constructor
  · rw [List.forall_mem_singleton, hbehind.isOk_eq]
  · intro v hv
    rw [List.flatMap_singleton, hevents]
    exact ⟨rfl, h.weaken.trans (agree_of_schedule hp.inside hv)⟩

/-- Parts behind resets play as they do at the start of the section. -/
theorem follows_resets (a : Transport α) {ps : List Part}
    (hps : ∀ p ∈ ps, p.mark.verb = .reset ∧ p.Voiced) (h : a.startSection.Agree {} t) :
  (t.schedule (ps.flatMap Part.commands)).Follows a.startSection (ps.map Part.body)
  := by
  induction ps generalizing t with
  | nil => apply follows_nil h
  | cons p ps ih =>
    obtain ⟨⟨hreset, hp⟩, hps⟩ := List.forall_mem_cons.mp hps
    have hmark : t.play p.mark = .ok ([], t.rewind) := by
      rw [play, hreset, control, hreset]
    have hindex : a.startSection.measureIndex = t.checkpointIndex - 1 := by
      rw [← h.checkpointIndex]
      exact (Int.add_sub_cancel a.greatestIndex 1).symm
    rw [List.flatMap_cons, List.map_cons, ← List.singleton_append]
    apply follows_append
    · apply follows_part hp hmark
      exact { h with measureIndex := fun _ => hindex }
    · intro u hu
      apply ih hps hu

/-- The parts of a section play as each of them does at its start. -/
theorem follows_section (a : Transport α) (x : Section) (hx : ∀ p ∈ x.parts, p.Voiced) :
  (a.schedule x.commands).Follows a.startSection (x.parts.map Part.body)
  := by
  obtain ⟨hfirst, hothers⟩ := List.forall_mem_cons.mp hx
  have hmark : a.play x.first.mark = .ok ([], a.startSection) := by
    rw [play, x.checkpoint, control, x.checkpoint]
  rw [Section.commands, Section.parts, List.flatMap_cons, List.map_cons, ← List.singleton_append]
  apply follows_append
  · apply follows_part hfirst hmark
    apply Agree.refl
  · intro u hu
    apply follows_resets a _ hu
    intro p hp
    exact ⟨x.resets p hp, hothers p hp⟩

/-- A section reaches as far as its longest part. -/
theorem greatestIndex_of_section {a t : Transport α} {x : Section}
    (h : (a.schedule x.commands).outcome = .ok t) :
  t.greatestIndex = a.greatestIndex + Part.longest x.parts
  := by
  have hmeasures := measures_schedule h
  obtain ⟨-, hgreatest⟩ := Measures.after_parts (B := a.greatestIndex + 1) (m := a.measures) x
    (List.prefix_refl _) (Int.add_sub_cancel _ _).symm
  have hindex : t.greatestIndex = (a.measures.after x.commands).greatest := by
    rw [← hmeasures]
    rfl
  rw [hindex]
  apply hgreatest.trans
  rw [Int.add_sub_cancel]
  rfl

end Transport

theorem Part.longest_perm {ps qs : List Part} (h : (ps.map Part.body).Perm (qs.map Part.body)) :
  Part.longest ps = Part.longest qs
  := by
  have hbars := h.map bars
  rw [List.map_map, List.map_map] at hbars
  apply hbars.foldr_eq

/-- Parts with the bodies of parts that name their voices name them too. -/
theorem Part.voiced_of_perm {ps qs : List Part} (h : (ps.map Part.body).Perm (qs.map Part.body))
    (hps : ∀ p ∈ ps, p.Voiced) :
  ∀ q ∈ qs, q.Voiced
  := by
  intro q hq
  obtain ⟨p, hp, hbody⟩ := List.mem_map.mp (h.mem_iff.mpr (List.mem_map_of_mem hq))
  obtain hvoiced := hps p hp
  rw [Part.Voiced, hbody] at hvoiced
  apply hvoiced

/-- The events of two schedules are the same, but for the order of some in their middle, which stand
behind the given number of events and are as many as given. -/
def Schedule.Permuted (before inside : Nat) (x y : List (Event α)) : Prop :=
  ∃ es fs fs' gs, x = es ++ fs ++ gs ∧ y = es ++ fs' ++ gs ∧ es.length = before ∧
    fs.length = inside ∧ fs.Perm fs'

/-- Sections with the same parts in another order lead to transports that agree on how far they
reach. -/
theorem Transport.agree_of_sections {a t t' : Transport α} {x y : Section}
    (hx : ∀ p ∈ x.parts, p.Voiced) (h : (x.parts.map Part.body).Perm (y.parts.map Part.body))
    (ht : (a.schedule x.commands).outcome = .ok t)
    (ht' : (a.schedule y.commands).outcome = .ok t') :
  t.Agree { greatest := true } t' ∧
    (a.schedule x.commands).events.Perm (a.schedule y.commands).events
  := by
  obtain ⟨hevents, hagree⟩ := (follows_section a x hx).of_ok t ht
  obtain ⟨hevents', hagree'⟩ := (follows_section a y (Part.voiced_of_perm h hx)).of_ok t' ht'
  constructor
  · have hgreatest : t.greatestIndex = t'.greatestIndex := by
      rw [greatestIndex_of_section ht, greatestIndex_of_section ht', Part.longest_perm h]
    exact { hagree.symm.trans hagree' with greatestIndex := fun _ => hgreatest }
  · rw [hevents, hevents']
    apply h.flatMap_right

/-- The parts of a section can be put into any order. -/
theorem Transport.schedule_permuted (s : Transport α) {x y : Section} {before after : List Command}
    (hx : ∀ p ∈ x.parts, p.Voiced) (h : (x.parts.map Part.body).Perm (y.parts.map Part.body))
    (hafter : Resumes after) :
  ((s.schedule (before ++ x.commands ++ after)).outcome.isOk ↔
      (s.schedule (before ++ y.commands ++ after)).outcome.isOk) ∧
    ((s.schedule (before ++ x.commands ++ after)).outcome.isOk →
      Schedule.Permuted (before.countP fun c => c.verb.isNote)
        (x.commands.countP fun c => c.verb.isNote)
        (s.schedule (before ++ x.commands ++ after)).events
        (s.schedule (before ++ y.commands ++ after)).events)
  := by
  rw [List.append_assoc, List.append_assoc]
  cases hbefore : (s.schedule before).outcome with
  | error e =>
    rw [schedule_append_of_error hbefore, schedule_append_of_error hbefore, hbefore]
    exact ⟨Iff.rfl, nofun⟩
  | ok a =>
    rw [schedule_append hbefore, schedule_append hbefore]
    have hboth : (a.schedule x.commands).outcome.isOk ↔ (a.schedule y.commands).outcome.isOk := by
      rw [(follows_section a x hx).isOk_iff,
        (follows_section a y (Part.voiced_of_perm h hx)).isOk_iff]
      simp only [h.mem_iff]
    cases ht : (a.schedule x.commands).outcome with
    | error e =>
      cases ht' : (a.schedule y.commands).outcome with
      | error e' =>
        rw [schedule_append_of_error ht, schedule_append_of_error ht', ht, ht']
        exact ⟨Iff.rfl, nofun⟩
      | ok t' =>
        rw [ht, ht'] at hboth
        cases hboth.mpr rfl
    | ok t =>
      cases ht' : (a.schedule y.commands).outcome with
      | error e' =>
        rw [ht, ht'] at hboth
        cases hboth.mp rfl
      | ok t' =>
        obtain ⟨hagree, hperm⟩ := agree_of_sections hx h ht ht'
        obtain ⟨hevents, hbehind⟩ := schedule_agree hagree hafter.allowsAll
        rw [schedule_append ht, schedule_append ht', hbehind.isOk_eq, hevents]
        refine ⟨Iff.rfl, fun _ => ⟨_, _, _, _, (List.append_assoc _ _ _).symm,
          (List.append_assoc _ _ _).symm, ?_, ?_, hperm⟩⟩
        · apply length_events_schedule hbefore
        · apply length_events_schedule ht

namespace Performance

/-- The parts of a section, each with a voice of its own, can be put into any order: the run gives a
performance exactly if it did before, and the performance has the same events before and behind the
section, and those of the section in some order. -/
theorem run_permuted [Memory] (playback : Playback) {x y : Section} {before after : List Command}
    (hx : ∀ p ∈ x.parts, p.Voiced) (h : (x.parts.map Part.body).Perm (y.parts.map Part.body))
    (hafter : Resumes after) :
  ((∃ p : Performance α, run playback (before ++ x.commands ++ after) = .ok p) ↔
      ∃ q : Performance α, run playback (before ++ y.commands ++ after) = .ok q) ∧
    ∀ p q : Performance α, run playback (before ++ x.commands ++ after) = .ok p →
      run playback (before ++ y.commands ++ after) = .ok q →
      Schedule.Permuted (before.countP fun c => c.verb.isNote)
        (x.commands.countP fun c => c.verb.isNote) p.events q.events
  := by
  obtain ⟨hiff, hpermuted⟩ := (Transport.initial : Transport α).schedule_permuted hx h hafter
  constructor
  · rw [exists_run_iff, exists_run_iff, ← hiff]
    apply and_congr_right
    intro hok
    obtain ⟨es, fs, fs', gs, hes, hes', -, -, hperm⟩ := hpermuted hok
    rw [hes, hes']
    simp only [List.mem_append, hperm.mem_iff]
  · intro p q hp hq
    obtain ⟨hp, -⟩ := schedule_of_run hp
    obtain ⟨hq, -⟩ := schedule_of_run hq
    rw [hp, hq] at hpermuted
    apply hpermuted rfl

/-- The commands of a voice that plays one note in each measure. -/
def voiceOf (name : String) (notes : List String) : List Command :=
  ⟨.voice, name.toList⟩ :: notes.flatMap fun n =>
    [⟨.measure, ['|']⟩, ⟨.note n.toList, "1/4".toList⟩]

/-- A section of two voices, of which the second stands behind a reset. -/
def duet (first second : List Command)
    (hfirst : ∀ c ∈ first, c.verb ≠ .checkpoint ∧ c.verb ≠ .reset)
    (hsecond : ∀ c ∈ second, c.verb ≠ .checkpoint ∧ c.verb ≠ .reset) : Section where
  first := ⟨⟨.checkpoint, ['*']⟩, first, hfirst⟩
  others := [⟨⟨.reset, []⟩, second, hsecond⟩]
  checkpoint := rfl
  resets := by simp

attribute [local instance] Memory.sixteenGigabytes in
/-- Two voices of different lengths can change their places behind a tempo and in front of another
section. -/
theorem run_permuted_duet :
  let high := voiceOf "sine" ["An_4", "Bn_4"]
  let low := voiceOf "square" ["Cn_3"]
  let x := duet high low (by decide) (by decide)
  let y := duet low high (by decide) (by decide)
  let before : List Command := [⟨.tempo, "90".toList⟩]
  let after := ⟨.checkpoint, ['*']⟩ :: voiceOf "sawtooth" ["Dn_4"]
  (∀ p ∈ x.parts, p.Voiced) ∧ (x.parts.map Part.body).Perm (y.parts.map Part.body) ∧ Resumes after ∧
    ∃ p q : Performance Float, run {} (before ++ x.commands ++ after) = .ok p ∧
      run {} (before ++ y.commands ++ after) = .ok q ∧ Schedule.Permuted 0 3 p.events q.events
  := by
  intro high low x y before after
  have hx : ∀ p ∈ x.parts, p.Voiced := by
    have hhigh : ∀ c ∈ high.drop 2, c.verb = .measure ∨ c.verb.isNote ∨ c.verb = .comment := by
      decide
    have hlow : ∀ c ∈ low.drop 2, c.verb = .measure ∨ c.verb.isNote ∨ c.verb = .comment := by
      decide
    intro p hp
    obtain rfl | hp := List.mem_cons.mp hp
    · exact ⟨_, _, _, rfl, rfl, rfl, hhigh⟩
    · obtain rfl := List.mem_singleton.mp hp
      exact ⟨_, _, _, rfl, rfl, rfl, hlow⟩
  have hperm : (x.parts.map Part.body).Perm (y.parts.map Part.body) := List.Perm.swap _ _ _
  have hafter : Resumes after :=
    .inr ⟨_, after.tail.take 2, after.tail.drop 2, rfl, rfl, by decide, by decide, by decide⟩
  obtain ⟨p, hp⟩ : ∃ p : Performance Float, run {} (before ++ x.commands ++ after) = .ok p := by
    apply exists_run
    · decide +kernel
    · decide +kernel
  obtain ⟨hiff, hpermuted⟩ := @run_permuted Float _ _ {} x y before after hx hperm hafter
  obtain ⟨q, hq⟩ := hiff.mp ⟨p, hp⟩
  exact ⟨hx, hperm, hafter, p, q, hp, hq, hpermuted p q hp hq⟩

end Performance

end Tunescript
