import Tunescript.Proofs.Performance.Reach
import Tunescript.Proofs.Performance.Schedule
import Tunescript.Proofs.Score.Unsigned

/-!
# Notes in front of the start

Where no quantity has a dash, what is true of such quantities and kept by arithmetic is true of the
lengths of measures and notes (`Transport.Each.schedule`).  So they are unsigned, and a note starts
in front of the first measure only in the one case in which a bar comes to the measure in front of
it: the bar is the first one behind a reset that has no checkpoint in front of it (`Rewound`,
`unsigned_start_of_run`).
-/

namespace Tunescript

/-- There is a reset without a checkpoint in front of it, and neither a bar nor a checkpoint behind
it. -/
def BehindEarlyReset (cs : List Command) : Prop :=
  ∃ us reset vs, cs = us ++ reset :: vs ∧ reset.verb = .reset ∧
    (∀ c ∈ us ++ vs, c.verb ≠ .checkpoint) ∧ ∀ c ∈ vs, c.verb ≠ .measure

/-- The last of the bars is the first one behind a reset that has no checkpoint in front of it. -/
def Rewound (cs : List Command) : Prop :=
  ∃ us bar vs, cs = us ++ bar :: vs ∧ bar.verb = .measure ∧ (∀ c ∈ vs, c.verb ≠ .measure) ∧
    BehindEarlyReset us

theorem BehindEarlyReset.concat {cs : List Command} {c : Command} (h : BehindEarlyReset cs)
    (hmeasure : c.verb ≠ .measure) (hcheckpoint : c.verb ≠ .checkpoint) :
  BehindEarlyReset (cs ++ [c])
  := by
  obtain ⟨us, reset, vs, rfl, hreset, hcs, hvs⟩ := h
  refine ⟨us, reset, vs ++ [c], by simp, hreset, ?_, ?_⟩
  · rw [← List.append_assoc]
    exact List.forall_mem_append.mpr ⟨hcs, List.forall_mem_singleton.mpr hcheckpoint⟩
  · exact List.forall_mem_append.mpr ⟨hvs, List.forall_mem_singleton.mpr hmeasure⟩

theorem Rewound.concat {cs : List Command} {c : Command} (h : Rewound cs) (hc : c.verb ≠ .measure) :
  Rewound (cs ++ [c])
  := by
  obtain ⟨us, bar, vs, rfl, hbar, hvs, hus⟩ := h
  refine ⟨us, bar, vs ++ [c], by simp, hbar, ?_, hus⟩
  exact List.forall_mem_append.mpr ⟨hvs, List.forall_mem_singleton.mpr hc⟩

namespace Measures

variable {cs : List Command}

/-- Behind a checkpoint the section does not start in front of the first measure. -/
theorem checkpoint_nonneg {c : Command} (hc : c ∈ cs) (hverb : c.verb = .checkpoint) :
  0 ≤ (initial.after cs).checkpoint
  := by
  obtain ⟨us, vs, rfl⟩ := List.append_of_mem hc
  have hgreatest := (inOrder_initial.advances_after us).greatest_le
  have hlater := (((inOrder_initial.after us).next c).advances_after vs).checkpoint_le
  have hcheckpoint : ((initial.after us).next c).checkpoint = (initial.after us).greatest + 1 := by
    rw [next, hverb]
  have hfirst : initial.greatest = -1 := rfl
  rw [after_append, after_cons]
  omega

/-- The measure two in front of the first one is reached only by a reset without a checkpoint. -/
theorem behindEarlyReset_of_index (h : (initial.after cs).index = -2) :
  BehindEarlyReset cs
  := by
  induction cs using List.reverseRecOn with
  | nil => cases h
  | append_singleton cs c ih =>
    have horder := inOrder_initial.after cs
    have hsection := horder.neg_one_le_checkpoint
    have hindex := horder.checkpoint_le_index
    have hgreatest := (inOrder_initial.advances_after cs).greatest_le
    have hfirst : initial.greatest = -1 := rfl
    rw [after_append, after_cons, after_nil, next] at h
    cases hverb : c.verb with
    | checkpoint =>
      rw [hverb] at h
      dsimp only at h
      omega
    | measure =>
      rw [hverb] at h
      dsimp only at h
      omega
    | reset =>
      rw [hverb] at h
      dsimp only at h
      refine ⟨cs, c, [], rfl, hverb, ?_, List.forall_mem_nil _⟩
      intro d hd hcheckpoint
      have hnonneg := checkpoint_nonneg (List.append_nil cs ▸ hd) hcheckpoint
      omega
    | _ =>
      rw [hverb] at h
      apply (ih h).concat <;> simp [hverb]

end Measures

/-- The quantities that notes are placed by have a property. -/
structure Transport.Each {α : Type} (P : α → Prop) (s : Transport α) : Prop where
  /-- The tempo. -/
  beatsPerSecond : P s.beatsPerSecond
  /-- The length of a measure in whole notes. -/
  timeSignature : P s.timeSignature
  /-- The length of a measure in seconds. -/
  measureDuration : P s.measureDuration
  /-- How much of the measure is filled. -/
  offset : P s.offset

/-- No quantity that notes are placed by has a minus sign. -/
structure Transport.Unsigned (s : Transport Float) : Prop where
  /-- The tempo. -/
  beatsPerSecond : Binary64.Unsigned s.beatsPerSecond
  /-- The length of a measure in whole notes. -/
  timeSignature : Binary64.Unsigned s.timeSignature
  /-- The length of a measure in seconds. -/
  measureDuration : Binary64.Unsigned s.measureDuration
  /-- How much of the measure is filled. -/
  offset : Binary64.Unsigned s.offset

namespace Transport

section Signless

open NoteLength (Signless)

variable {α : Type} [Scalar α] {P : α → Prop} {s s' : Transport α} {c : Command} {cs : List Command}
  {events : List (Event α)}

/-- The sides of a time signature without a dash are quantities without one. -/
theorem each_readTime? (hP : Signless P) {noun : Text} {above below : α}
    (h : readTime? noun = some (above, below)) (hnoun : '-' ∉ noun) :
  P above ∧ P below
  := by
  have hpiece {p : Text} (hp : p ∈ Text.pieces '/' noun) : '-' ∉ p :=
    Text.not_mem_of_mem_pieces hp hnoun
  rw [readTime?] at h
  split at h
  · rename_i above' below' hpieces
    rw [hpieces] at hpiece
    obtain ⟨n, hn, h⟩ := Option.bind_eq_some_iff.mp h
    obtain ⟨d, hd, h⟩ := Option.bind_eq_some_iff.mp h
    cases h
    exact ⟨hP.quantity hn (hpiece (by simp)), hP.quantity hd (hpiece (by simp))⟩
  · cases h

theorem each_initial (hP : Signless P) :
  (initial : Transport α).Each P
  where
  beatsPerSecond := hP.ofInt (by decide)
  timeSignature := hP.ofInt (by decide)
  measureDuration := hP.ofInt (by decide)
  offset := hP.ofInt (by decide)

/-- The length of a note that writes no dash has the property. -/
theorem Each.duration (hP : Signless P) {name noun : Text} {e : Event α} (h : s.Each P)
    (hnoun : '-' ∉ noun) (hplace : s.place name noun = .ok e) :
  P e.duration
  := by
  obtain ⟨frequency, length, -, hlength, -, rfl⟩ := place_eq_ok hplace
  obtain ⟨habove, hbelow⟩ := hP.read hlength hnoun
  apply hP.mul
  · apply hP.mul h.measureDuration
    apply hP.div (hP.div habove hbelow) h.timeSignature
  · apply hP.dotFactor

/-- A command without a dash in its quantity keeps the property, and what it plays has it. -/
theorem Each.play (hP : Signless P) (h : s.Each P) (hc : c.Dashless)
    (hplay : s.play c = .ok (events, s')) :
  s'.Each P ∧ ∀ e ∈ events, P e.duration
  := by
  obtain ⟨verb, noun⟩ := c
  obtain ⟨name, e, rfl, hplace, rfl, rfl⟩ | ⟨hnote, rfl, hcontrol⟩ := play_eq_ok hplay
  · have hduration := h.duration hP hc hplace
    exact ⟨{ h with offset := hP.add h.offset hduration }, List.forall_mem_singleton.mpr hduration⟩
  · refine ⟨?_, List.forall_mem_nil _⟩
    cases verb with
    | note name => cases hnote
    | tempo =>
      obtain ⟨bpm, hquantity, rfl⟩ := setTempo_eq_ok hcontrol
      have hbpm := hP.quantity hquantity hc
      exact { h with beatsPerSecond := hP.div hbpm (hP.ofInt (by decide)) }
    | time =>
      obtain ⟨above, below, htime, rfl⟩ := setTime_eq_ok hcontrol
      obtain ⟨habove, hbelow⟩ := each_readTime? hP htime hc
      exact { h with
        timeSignature := hP.div habove hbelow
        measureDuration := hP.div habove h.beatsPerSecond }
    | measure =>
      cases hcontrol
      exact { h with offset := hP.ofInt (by decide) }
    | _ =>
      cases hcontrol
      exact { h with }

/-- Commands without dashes in their quantities keep the property, and what they play has it. -/
theorem Each.schedule (hP : Signless P) (h : s.Each P) (hcs : ∀ c ∈ cs, c.Dashless)
    (hschedule : (s.schedule cs).outcome = .ok s') :
  s'.Each P ∧ ∀ e ∈ (s.schedule cs).events, P e.duration
  := by
  induction cs generalizing s with
  | nil =>
    cases hschedule
    exact ⟨h, List.forall_mem_nil _⟩
  | cons c cs ih =>
    obtain ⟨hc, hcs⟩ := List.forall_mem_cons.mp hcs
    obtain ⟨events, t, hplay, hschedule, hevents⟩ := schedule_cons_eq_ok hschedule
    obtain ⟨ht, hduration⟩ := h.play hP hc hplay
    obtain ⟨hs', hlater⟩ := ih ht hcs hschedule
    rw [hevents]
    exact ⟨hs', List.forall_mem_append.mpr ⟨hduration, hlater⟩⟩

end Signless

variable {s : Transport Float} {cs : List Command}

theorem unsigned_zero :
  Binary64.Unsigned (Scalar.zero : Float)
  := NoteLength.signless_unsigned.ofInt (by decide)

/-- The quantities behind commands without dashes in theirs are unsigned. -/
theorem unsigned_quantities_of_schedule (h : (initial.schedule cs).outcome = .ok s)
    (hcs : ∀ c ∈ cs, c.Dashless) :
  s.Unsigned
  := by
  have hP := NoteLength.signless_unsigned
  obtain ⟨heach, -⟩ := (each_initial hP).schedule hP hcs h
  exact { heach with }

/-- Behind commands without dashes in their quantities the quantities of the transport are unsigned,
and the measure does not start in front of the first one unless the commands are rewound. -/
theorem unsigned_of_schedule (h : (initial.schedule cs).outcome = .ok s)
    (hcs : ∀ c ∈ cs, c.Dashless) :
  s.Unsigned ∧ (Binary64.Unsigned s.measureStart ∨ Rewound cs)
  := by
  use unsigned_quantities_of_schedule h hcs
  induction cs using List.reverseRecOn generalizing s with
  | nil =>
    cases h
    exact .inl unsigned_zero
  | append_singleton cs c ih =>
    rw [List.forall_mem_append, List.forall_mem_singleton] at hcs
    obtain ⟨t, ht, hlast, -⟩ := schedule_append_eq_ok h
    obtain ⟨events, u, hplay, hu, -⟩ := schedule_cons_eq_ok hlast
    cases hu
    have hunsigned := unsigned_quantities_of_schedule ht hcs.1
    have hstart := ih ht hcs.1
    rw [measureStart_play hplay]
    split
    · rename_i hc
      have hindex : t.measureIndex = (Measures.initial.after cs).index :=
        congrArg Measures.index (measures_schedule ht)
      have horder := Measures.inOrder_initial.after cs
      have hsection := horder.neg_one_le_checkpoint
      have hlow := horder.checkpoint_le_index
      by_cases hnonneg : 0 ≤ t.measureIndex + 1
      · have hnumber : (Scalar.ofInt (t.measureIndex + 1) : Float) =
            Float.ofInt (t.measureIndex + 1) :=
          rfl
        rw [hnumber]
        exact .inl (hunsigned.measureDuration.mul (Binary64.unsigned_ofInt hnonneg))
      · have hearly := @Measures.behindEarlyReset_of_index cs (by omega)
        exact .inr ⟨cs, c, [], rfl, hc, List.forall_mem_nil _, hearly⟩
    · rename_i hc
      apply hstart.imp_right
      intro hrewound
      apply hrewound.concat hc

end Transport

namespace Performance

/-- A note among commands without dashes in their quantities does not start in front of the first
measure, unless the commands before it are rewound. -/
theorem unsigned_start_of_run [Memory] {playback : Playback} {cs ds : List Command}
    {name noun : Text} {p : Performance Float}
    (h : run playback (cs ++ ⟨.note name, noun⟩ :: ds) = .ok p) (hcs : ∀ c ∈ cs, c.Dashless)
    (hrewound : ¬Rewound cs) :
  ∃ e, p.events[cs.countP fun c => c.verb.isNote]? = some e ∧ Binary64.Unsigned e.start
  := by
  obtain ⟨s, e, hs, hplace, he⟩ := event_of_run h
  obtain ⟨hunsigned, hstart⟩ := Transport.unsigned_of_schedule hs hcs
  obtain ⟨frequency, length, -, -, -, rfl⟩ := Transport.place_eq_ok hplace
  refine ⟨_, he, ?_⟩
  apply (hstart.resolve_right hrewound).add hunsigned.offset

end Performance

end Tunescript
