import Tunescript.Proofs.Performance.Schedule

/-!
# Transports that agree

What commands do depends on what they take from the transport: a checkpoint takes the furthest
measure, a bar the measure that is being written, and a note its place and the voice as well, while
all these are left behind by commands before them.  Two transports that agree on what commands take
from them play these commands alike, and agree on more behind them (`schedule_agree`).
-/

namespace Tunescript

/-- On which of what commands leave behind two transports agree. -/
structure Known where
  /-- The furthest measure. -/
  greatest : Bool := false
  /-- The measure that is being written. -/
  index : Bool := false
  /-- The place in that measure. -/
  place : Bool := false
  /-- The voice. -/
  voice : Bool := false

namespace Known

/-- A command takes nothing else from the transport than what is known. -/
def Allows (k : Known) (c : Command) : Prop :=
  match c.verb with
  | .checkpoint => k.greatest
  | .measure => k.index
  | .note _ => k.index ∧ k.place ∧ k.voice
  | _ => True

/-- What is known behind a command. -/
def after (k : Known) (c : Command) : Known :=
  match c.verb with
  | .checkpoint | .reset => { k with index := true }
  | .measure => { k with place := true }
  | .voice => { k with voice := true }
  | _ => k

/-- Each of some commands takes nothing else from the transport than what is known in front of
it. -/
def AllowsAll (k : Known) : List Command → Prop
  | [] => True
  | c :: cs => k.Allows c ∧ (k.after c).AllowsAll cs

/-- Commands can be split where more is known. -/
theorem allowsAll_append {k : Known} {cs ds : List Command} (hcs : k.AllowsAll cs)
    (hds : (cs.foldl after k).AllowsAll ds) :
  k.AllowsAll (cs ++ ds)
  := by
  induction cs generalizing k with
  | nil => exact hds
  | cons c cs ih => exact ⟨hcs.1, ih hcs.2 hds⟩

/-- Behind commands what was known still is, and so is what they set. -/
theorem foldl_after (k : Known) (cs : List Command) :
  cs.foldl after k =
    { greatest := k.greatest
      index := k.index || cs.any fun c => c.verb = .checkpoint || c.verb = .reset
      place := k.place || cs.any fun c => c.verb = .measure
      voice := k.voice || cs.any fun c => c.verb = .voice }
  := by
  induction cs generalizing k with
  | nil => simp
  | cons c cs ih =>
    rw [List.foldl_cons, ih]
    obtain ⟨verb, noun⟩ := c
    cases verb <;> simp [after]

/-- Commands without notes take from the transport the furthest measure and the one that is
written. -/
theorem allowsAll_of_not_note {k : Known} {cs : List Command} (hgreatest : k.greatest)
    (hindex : k.index) (hcs : ∀ c ∈ cs, c.verb.isNote = false) :
  k.AllowsAll cs
  := by
  induction cs generalizing k with
  | nil => trivial
  | cons c cs ih =>
    obtain ⟨hc, hrest⟩ := List.forall_mem_cons.mp hcs
    obtain ⟨verb, noun⟩ := c
    cases verb with
    | note name => cases hc
    | checkpoint => exact ⟨hgreatest, ih hgreatest rfl hrest⟩
    | reset => exact ⟨trivial, ih hgreatest rfl hrest⟩
    | measure => exact ⟨hindex, ih hgreatest hindex hrest⟩
    | _ => exact ⟨trivial, ih hgreatest hindex hrest⟩

/-- Commands behind a bar and a voice take nothing else from the transport than the furthest
measure, and that only at a checkpoint. -/
theorem allowsAll_of_known {k : Known} {cs : List Command} (hindex : k.index) (hplace : k.place)
    (hvoice : k.voice) (hcs : k.greatest ∨ ∀ c ∈ cs, c.verb ≠ .checkpoint) :
  k.AllowsAll cs
  := by
  induction cs generalizing k with
  | nil => trivial
  | cons c cs ih =>
    have hrest : k.greatest ∨ ∀ c ∈ cs, c.verb ≠ .checkpoint :=
      hcs.imp_right fun h => (List.forall_mem_cons.mp h).2
    obtain ⟨verb, noun⟩ := c
    cases verb with
    | note name => exact ⟨⟨hindex, hplace, hvoice⟩, ih hindex hplace hvoice hrest⟩
    | checkpoint =>
      have hgreatest : k.greatest := hcs.resolve_right fun h => h _ List.mem_cons_self rfl
      exact ⟨hgreatest, ih rfl hplace hvoice hrest⟩
    | reset => exact ⟨trivial, ih rfl hplace hvoice hrest⟩
    | measure => exact ⟨hindex, ih hindex rfl hvoice hrest⟩
    | voice => exact ⟨trivial, ih hindex hplace rfl hrest⟩
    | _ => exact ⟨trivial, ih hindex hplace hvoice hrest⟩

end Known

variable {α : Type}

/-- The transports agree on the setting of the measures, on the section, and on what is known. -/
structure Transport.Agree (k : Known) (s s' : Transport α) : Prop where
  /-- The tempo is the same. -/
  beatsPerSecond : s.beatsPerSecond = s'.beatsPerSecond
  /-- The measures have the same length in whole notes. -/
  timeSignature : s.timeSignature = s'.timeSignature
  /-- The measures have the same number of beats. -/
  beatsPerMeasure : s.beatsPerMeasure = s'.beatsPerMeasure
  /-- The measures have the same length in seconds. -/
  measureDuration : s.measureDuration = s'.measureDuration
  /-- The section starts at the same measure. -/
  checkpointIndex : s.checkpointIndex = s'.checkpointIndex
  /-- The furthest measure is the same if it is known. -/
  greatestIndex : k.greatest → s.greatestIndex = s'.greatestIndex
  /-- The same measure is being written if it is known. -/
  measureIndex : k.index → s.measureIndex = s'.measureIndex
  /-- The measure starts at the same time if the place is known. -/
  measureStart : k.place → s.measureStart = s'.measureStart
  /-- The measure is filled alike if the place is known. -/
  offset : k.place → s.offset = s'.offset
  /-- The voice is the same if it is known. -/
  voice : k.voice → s.voice = s'.voice

namespace Transport

variable {k : Known} {s s' s'' : Transport α}

theorem Agree.refl (k : Known) (s : Transport α) :
  s.Agree k s
  := by
  constructor <;> intros <;> rfl

theorem Agree.symm (h : s.Agree k s') :
  s'.Agree k s
  where
  beatsPerSecond := h.beatsPerSecond.symm
  timeSignature := h.timeSignature.symm
  beatsPerMeasure := h.beatsPerMeasure.symm
  measureDuration := h.measureDuration.symm
  checkpointIndex := h.checkpointIndex.symm
  greatestIndex hk := (h.greatestIndex hk).symm
  measureIndex hk := (h.measureIndex hk).symm
  measureStart hk := (h.measureStart hk).symm
  offset hk := (h.offset hk).symm
  voice hk := (h.voice hk).symm

theorem Agree.trans (h : s.Agree k s') (h' : s'.Agree k s'') :
  s.Agree k s''
  where
  beatsPerSecond := h.beatsPerSecond.trans h'.beatsPerSecond
  timeSignature := h.timeSignature.trans h'.timeSignature
  beatsPerMeasure := h.beatsPerMeasure.trans h'.beatsPerMeasure
  measureDuration := h.measureDuration.trans h'.measureDuration
  checkpointIndex := h.checkpointIndex.trans h'.checkpointIndex
  greatestIndex hk := (h.greatestIndex hk).trans (h'.greatestIndex hk)
  measureIndex hk := (h.measureIndex hk).trans (h'.measureIndex hk)
  measureStart hk := (h.measureStart hk).trans (h'.measureStart hk)
  offset hk := (h.offset hk).trans (h'.offset hk)
  voice hk := (h.voice hk).trans (h'.voice hk)

theorem agree_empty (hbeats : s.beatsPerSecond = s'.beatsPerSecond)
    (htime : s.timeSignature = s'.timeSignature) (hmeasure : s.beatsPerMeasure = s'.beatsPerMeasure)
    (hduration : s.measureDuration = s'.measureDuration)
    (hcheckpoint : s.checkpointIndex = s'.checkpointIndex) :
  s.Agree {} s'
  := ⟨hbeats, htime, hmeasure, hduration, hcheckpoint, nofun, nofun, nofun, nofun, nofun⟩

/-- Transports that agree on more agree on less. -/
theorem Agree.weaken (h : s.Agree k s') :
  s.Agree {} s'
  := agree_empty h.beatsPerSecond h.timeSignature h.beatsPerMeasure h.measureDuration
    h.checkpointIndex

/-- How commands leave transports that agree: they make no sense to either, or both go on
agreeing. -/
inductive AgreeBehind (k : Known) :
    Except PlayError (Transport α) → Except PlayError (Transport α) → Prop
  /-- The commands make no sense, for one reason. -/
  | refused (e : PlayError) : AgreeBehind k (.error e) (.error e)
  /-- The transports go on. -/
  | goesOn {s s' : Transport α} (h : s.Agree k s') : AgreeBehind k (.ok s) (.ok s')

/-- Outcomes of transports that agree are both a performance or both none. -/
theorem AgreeBehind.isOk_eq {o o' : Except PlayError (Transport α)}
    (h : AgreeBehind k o o') :
  o.isOk = o'.isOk
  := by
  cases h with
  | refused e => rfl
  | goesOn h => rfl

variable [Scalar α]

/-- Where transports agree on the place and the voice, a note is placed alike. -/
theorem place_agree (h : s.Agree k s') (hindex : k.index) (hplace : k.place) (hvoice : k.voice)
    (name noun : Text) :
  s.place name noun = s'.place name noun
  := by
  rw [place, place, h.timeSignature, h.measureDuration, h.voice hvoice, h.measureStart hplace,
    h.offset hplace, h.measureIndex hindex]

/-- Transports that agree on what a command takes from them play it alike. -/
theorem play_agree {c : Command} (h : s.Agree k s') (hc : k.Allows c) :
  (∃ e, s.play c = .error e ∧ s'.play c = .error e) ∨
    ∃ es t t', s.play c = .ok (es, t) ∧ s'.play c = .ok (es, t') ∧ t.Agree (k.after c) t'
  := by
  obtain ⟨verb, noun⟩ := c
  cases verb with
  | note name =>
    obtain ⟨hindex, hplace, hvoice⟩ := hc
    rw [play, play]
    dsimp only
    rw [place_agree h hindex hplace hvoice]
    cases s'.place name noun with
    | error e => exact .inl ⟨e, rfl, rfl⟩
    | ok event =>
      have hoffset : s.offset + event.duration = s'.offset + event.duration := by
        rw [h.offset hplace]
      exact .inr ⟨_, _, _, rfl, rfl, { h with offset := fun _ => hoffset }⟩
  | tempo =>
    rw [play, play]
    dsimp only [control]
    rw [setTempo, setTempo]
    cases (NoteLength.quantity? noun : Option α) with
    | none => exact .inl ⟨_, rfl, rfl⟩
    | some bpm => exact .inr ⟨_, _, _, rfl, rfl, { h with beatsPerSecond := rfl }⟩
  | time =>
    rw [play, play]
    dsimp only [control]
    rw [setTime, setTime, h.beatsPerSecond]
    cases (readTime? noun : Option (α × α)) with
    | none => exact .inl ⟨_, rfl, rfl⟩
    | some r =>
      dsimp only
      cases Scalar.isZero r.2 || Scalar.isZero s'.beatsPerSecond with
      | true => exact .inl ⟨_, rfl, rfl⟩
      | false =>
        refine .inr ⟨_, _, _, rfl, rfl, { h with
          beatsPerSecond := rfl, timeSignature := rfl, beatsPerMeasure := rfl,
          measureDuration := rfl }⟩
  | checkpoint =>
    have hgreatest := h.greatestIndex hc
    refine .inr ⟨_, _, _, rfl, rfl,
      { h with checkpointIndex := ?_, measureIndex := fun _ => hgreatest }⟩
    exact congrArg (· + 1) hgreatest
  | measure =>
    have hindex : s.measureIndex + 1 = s'.measureIndex + 1 := by rw [h.measureIndex hc]
    refine .inr ⟨_, _, _, rfl, rfl, { h with
      measureIndex := fun _ => hindex, offset := fun _ => rfl,
      greatestIndex := fun hgreatest => ?_, measureStart := fun _ => ?_ }⟩
    · exact congrArg₂ max (h.greatestIndex hgreatest) hindex
    · exact congrArg₂ (fun d i => d * Scalar.ofInt i) h.measureDuration hindex
  | reset =>
    refine .inr ⟨_, _, _, rfl, rfl, { h with measureIndex := fun _ => ?_ }⟩
    exact congrArg (· - 1) h.checkpointIndex
  | voice => exact .inr ⟨_, _, _, rfl, rfl, { h with voice := fun _ => rfl }⟩
  | comment => exact .inr ⟨_, _, _, rfl, rfl, h⟩

/-- Transports that agree on what commands take from them play them alike. -/
theorem schedule_agree {cs : List Command} (h : s.Agree k s') (hcs : k.AllowsAll cs) :
  (s.schedule cs).events = (s'.schedule cs).events ∧
    AgreeBehind (cs.foldl Known.after k) (s.schedule cs).outcome (s'.schedule cs).outcome
  := by
  induction cs generalizing k s s' with
  | nil => exact ⟨rfl, .goesOn h⟩
  | cons c cs ih =>
    obtain ⟨e, hs, hs'⟩ | ⟨es, t, t', hs, hs', ht⟩ := play_agree h hcs.1
    · rw [schedule_cons_of_error hs, schedule_cons_of_error hs']
      exact ⟨rfl, .refused e⟩
    · obtain ⟨hevents, houtcome⟩ := ih ht hcs.2
      rw [schedule_cons_of_ok hs, schedule_cons_of_ok hs', hevents]
      exact ⟨rfl, houtcome⟩

/-- The command leaves the setting of the measures and the section alone. -/
def Inside (c : Command) : Prop := c.verb ≠ .tempo ∧ c.verb ≠ .time ∧ c.verb ≠ .checkpoint

theorem agree_of_play {c : Command} (hc : Inside c) {es : List (Event α)}
    (h : s.play c = .ok (es, s')) :
  s.Agree {} s'
  := by
  obtain ⟨htempo, htime, hcheckpoint⟩ := hc
  obtain ⟨verb, noun⟩ := c
  rw [play] at h
  cases verb with
  | tempo => cases htempo rfl
  | time => cases htime rfl
  | checkpoint => cases hcheckpoint rfl
  | note name =>
    dsimp only at h
    split at h
    · cases h
    · cases h
      exact agree_empty rfl rfl rfl rfl rfl
  | _ =>
    cases h
    exact agree_empty rfl rfl rfl rfl rfl

/-- Commands of a part leave the setting of the measures and the section alone. -/
theorem agree_of_schedule {cs : List Command} (hcs : ∀ c ∈ cs, Inside c)
    (h : (s.schedule cs).outcome = .ok s') :
  s.Agree {} s'
  := by
  induction cs generalizing s with
  | nil =>
    cases h
    apply Agree.refl
  | cons c cs ih =>
    obtain ⟨hc, hcs⟩ := List.forall_mem_cons.mp hcs
    obtain ⟨es, t, hplay, h, -⟩ := schedule_cons_eq_ok h
    apply (agree_of_play hc hplay).trans (ih hcs h)

end Transport

end Tunescript
