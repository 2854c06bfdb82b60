import Tunescript.Proofs.Layout.Settled
import Tunescript.Proofs.Layout.Widths
import Tunescript.Proofs.Performance.Schedule
import Tunescript.Proofs.Score.Concatenation
import Tunescript.Proofs.Score.Lengths

/-!
# Timing

A block is laid out line by line in quarter notes, and played as one score in seconds.  In exact
arithmetic both put every note at the same place: a line is played from the section's first measure
on, and behind every command of it the transport stands where the layout does (`At.play`,
`At.schedule`), so that the notes of a line, of a block (`At.block`) and of a block inside a score
(`placing_of_run`) are played in the measures, at the times and for the lengths at which they are
laid out.
-/

namespace Tunescript

open Score (commands commands_append commands_lines_append commands_nil read_eq_ok)

namespace Text

variable {ls ms : List Text}

theorem Lines.of_append (h : Lines (ls ++ ms)) :
  Lines ms
  := by
  induction ls with
  | nil => exact h
  | cons l ls ih => apply ih h.tail

/-- Lines end with a line end unless there are none, or none behind them. -/
theorem Lines.endsLine_flatten_or (h : Lines (ls ++ ms)) :
  endsLine ls.flatten ∨ ls = [] ∨ ms = []
  := by
  induction ls with
  | nil => exact .inr (.inl rfl)
  | cons l ls ih =>
    obtain _ | ⟨m, ls⟩ := ls
    · rw [List.flatten_singleton]
      exact h.endsLine_or.imp_right .inr
    · obtain hends | hnil | hnil := ih h.tail
      · exact .inl (endsLine_append hends)
      · cases hnil
      · exact .inr (.inr hnil)

end Text

namespace Layout

/-- The notes of commands that stand one behind the other. -/
theorem slotsOf_append {α : Type} [Scalar α] (bars : Nat) (time : α) (cs ds : List Command) :
  slotsOf bars time (cs ++ ds) =
    slotsOf bars time cs ++ slotsOf (cs.foldl barsAfter bars) (cs.foldl timeAfter time) ds
  := by
  induction cs generalizing bars time with
  | nil => rfl
  | cons c cs ih =>
    obtain ⟨verb, noun⟩ := c
    cases verb with
    | note name =>
      rw [List.cons_append, List.foldl_cons, List.foldl_cons, barsAfter_of_isNote rfl, timeAfter,
        slotsOf, slotsOf, ih, ih]
      dsimp only
      split
      · rfl
      · rfl
    | _ => apply ih

/-- A note with the slot that the layout of a block gives it and the event that it is played as. -/
structure Placed where
  /-- The note. -/
  note : Command
  /-- The number of its measure in the block, and its slot there. -/
  slot : Nat × Slot Rat
  /-- Its event. -/
  event : Event Rat

/-- The note is played in the measure, at the time and for the length at which it is laid out, in
the section and by the measures of a transport. -/
structure Placed.InTime (a : Transport Rat) (x : Placed) : Prop where
  /-- The event plays the note. -/
  verb : x.note.verb = .note x.event.name
  /-- The slot has the length of the note. -/
  quarters : x.slot.2.duration = NoteLength.quarters x.note.noun
  /-- The measures are counted from the first of the section. -/
  measureIndex : x.event.measureIndex = a.checkpointIndex + x.slot.1
  /-- The event starts as far behind the start of its measure as the slot. -/
  start : x.event.start = a.measureDuration * x.event.measureIndex +
    x.slot.2.start * a.measureDuration / (4 * a.timeSignature)
  /-- The event lasts as long as the slot. -/
  duration : x.event.duration = x.slot.2.duration * a.measureDuration / (4 * a.timeSignature)

/-- The notes among commands have the given slots and events, one each and in their order, and are
played as they are laid out. -/
def Placing (a : Transport Rat) (cs : List Command) (slots : List (Nat × Slot Rat))
    (events : List (Event Rat)) : Prop :=
  ∃ xs : List Placed, cs.filter (fun c => c.verb.isNote) = xs.map Placed.note ∧
    slots = xs.map Placed.slot ∧ events = xs.map Placed.event ∧ ∀ x ∈ xs, x.InTime a

section Placing

variable {a : Transport Rat} {cs ds : List Command} {slots slots' : List (Nat × Slot Rat)}
  {events events' : List (Event Rat)}

theorem Placing.of_not_isNote (h : ∀ c ∈ cs, c.verb.isNote = false) :
  Placing a cs [] []
  := by
  refine ⟨[], ?_, rfl, rfl, List.forall_mem_nil _⟩
  apply List.filter_eq_nil_iff.mpr
  intro c hc
  rw [h c hc]
  nofun

theorem Placing.append (hcs : Placing a cs slots events) (hds : Placing a ds slots' events') :
  Placing a (cs ++ ds) (slots ++ slots') (events ++ events')
  := by
  obtain ⟨xs, hnotes, rfl, rfl, hxs⟩ := hcs
  obtain ⟨ys, hnotes', rfl, rfl, hys⟩ := hds
  refine ⟨xs ++ ys, ?_, List.map_append.symm, List.map_append.symm, ?_⟩
  · rw [List.filter_append, hnotes, hnotes', List.map_append]
  · intro x hx
    obtain hx | hx := List.mem_append.mp hx
    · apply hxs x hx
    · apply hys x hx

end Placing

/-- The transport stands where the layout of a line stands behind the given number of bars and at
the given time, in the section and with the measures of another transport. -/
structure At (a : Transport Rat) (bars : Nat) (time : Rat) (s : Transport Rat) : Prop where
  /-- The section is the same. -/
  checkpointIndex : s.checkpointIndex = a.checkpointIndex
  /-- The measures have the same length in whole notes. -/
  timeSignature : s.timeSignature = a.timeSignature
  /-- The measures have the same length in seconds. -/
  measureDuration : s.measureDuration = a.measureDuration
  /-- The measures of the line are counted from the first of the section. -/
  measureIndex : s.measureIndex = a.checkpointIndex - 1 + bars
  /-- A measure starts behind those before it. -/
  measureStart : 0 < bars → s.measureStart = a.measureDuration * s.measureIndex
  /-- The time in the measure is the one in quarter notes. -/
  offset : 0 < bars → s.offset = time * a.measureDuration / (4 * a.timeSignature)

section Played

variable {a s s' : Transport Rat} {bars : Nat} {time : Rat} {c : Command} {cs : List Command}
  {events : List (Event Rat)}

/-- The seconds that a length in quarter notes takes. -/
theorem duration_of_place {name noun : Text} {e : Event Rat} (h : s.place name noun = .ok e) :
  e.duration = NoteLength.quarters noun * s.measureDuration / (4 * s.timeSignature)
  := by
  obtain ⟨frequency, length, -, hlength, -, rfl⟩ := Transport.place_eq_ok h
  rw [NoteLength.quarters_of_read hlength]
  have hfour : (Scalar.ofInt 4 : Rat) = 4 := rfl
  rw [hfour]
  ring

/-- A note is played where it is laid out. -/
theorem At.place {name noun : Text} {e : Event Rat} (h : At a bars time s) (hbars : 0 < bars)
    (hplace : s.place name noun = .ok e) :
  Placed.InTime a ⟨⟨.note name, noun⟩,
      (bars - 1, ⟨time, NoteLength.quarters noun, Scalar.ofInt (tokenWidth name noun)⟩), e⟩
  := by
  have hduration := duration_of_place hplace
  rw [h.measureDuration, h.timeSignature] at hduration
  obtain ⟨frequency, length, -, -, -, rfl⟩ := Transport.place_eq_ok hplace
  refine ⟨rfl, rfl, ?_, ?_, hduration⟩
  · dsimp only
    rw [h.measureIndex]
    omega
  · dsimp only
    rw [h.measureStart hbars, h.offset hbars]

/-- A bar leads to the start of the next measure. -/
theorem At.startMeasure (h : At a bars time s) :
  At a (bars + 1) 0 s.startMeasure
  := by
  have hindex : s.startMeasure.measureIndex = a.checkpointIndex - 1 + (bars + 1 : Nat) := by
    rw [Transport.startMeasure, h.measureIndex]
    dsimp only
    omega
  have hoffset : s.startMeasure.offset = 0 := rfl
  exact {
    checkpointIndex := h.checkpointIndex
    timeSignature := h.timeSignature
    measureDuration := h.measureDuration
    measureIndex := hindex
    measureStart := fun _ => congrArg (· * _) h.measureDuration
    offset := fun _ => by rw [hoffset, zero_mul, zero_div] }

/-- A reset leads in front of the first measure. -/
theorem At.rewind (h : At a bars time s) :
  At a 0 0 s.rewind
  where
  checkpointIndex := h.checkpointIndex
  timeSignature := h.timeSignature
  measureDuration := h.measureDuration
  measureIndex := by
    rw [Transport.rewind, h.checkpointIndex]
    exact (Int.add_zero _).symm
  measureStart := nofun
  offset := nofun

/-- A note takes the transport on by its length. -/
theorem At.pass {name noun : Text} {e : Event Rat} (h : At a bars time s)
    (hplace : s.place name noun = .ok e) :
  At a bars (time + NoteLength.quarters noun) (s.pass e)
  := by
  have hoffset : (s.pass e).offset = s.offset + e.duration := rfl
  have hduration := duration_of_place hplace
  rw [h.measureDuration, h.timeSignature] at hduration
  exact { h with
    offset := fun hbars => by
      rw [hoffset, h.offset hbars, hduration]
      ring }

/-- Behind a voice, a bar, or a note that has a length and stands behind a bar, the transport stands
where the layout does, and the note is played where it is laid out. -/
theorem At.play (h : At a bars time s) (hc : c.verb = .voice ∨ BarOrNote c)
    (hbars : c.verb.isNote → 0 < bars) (hplay : s.play c = .ok (events, s')) :
  At a (barsAfter bars c) (timeAfter time c) s' ∧ Placing a [c] (slotsOf bars time [c]) events
  := by
  obtain ⟨verb, noun⟩ := c
  obtain rfl | rfl | ⟨hnote, hlength⟩ := hc
  · cases hplay
    exact ⟨{ h with }, Placing.of_not_isNote (by simp [Verb.isNote])⟩
  · cases hplay
    exact ⟨h.startMeasure, Placing.of_not_isNote (by simp [Verb.isNote])⟩
  · obtain ⟨name, e, rfl, hplace, rfl, rfl⟩ | ⟨hcontrol, -⟩ := Transport.play_eq_ok hplay
    · rw [barsAfter_of_isNote hnote, timeAfter_of_isNote hnote hlength]
      have hsome : Scalar.atMost (NoteLength.quarters noun : Rat) Scalar.zero = false :=
        Scalar.atMost_rat_eq_false_iff.mpr hlength
      rw [slotsOf, hsome]
      have hplaced := h.place (hbars rfl) hplace
      exact ⟨h.pass hplace, [_], rfl, rfl, rfl, List.forall_mem_singleton.mpr hplaced⟩
    · rw [hnote] at hcontrol
      cases hcontrol

/-- Behind voices, bars and notes that have a length, the first behind a bar, the transport stands
where the layout does, and the notes are played where they are laid out. -/
theorem At.schedule (h : At a bars time s) (hcs : ∀ c ∈ cs, c.verb = .voice ∨ BarOrNote c)
    (hbars : 0 < bars ∨ ∀ c ∈ cs, c.verb.isNote = false) (hok : (s.schedule cs).outcome = .ok s') :
  At a (cs.foldl barsAfter bars) (cs.foldl timeAfter time) s' ∧
    Placing a cs (slotsOf bars time cs) (s.schedule cs).events
  := by
  induction cs generalizing bars time s with
  | nil =>
    cases hok
    exact ⟨h, Placing.of_not_isNote (List.forall_mem_nil _)⟩
  | cons c cs ih =>
    obtain ⟨hc, hcs⟩ := List.forall_mem_cons.mp hcs
    obtain ⟨events, t, hplay, hok, hevents⟩ := Transport.schedule_cons_eq_ok hok
    have hnote : c.verb.isNote → 0 < bars := by
      intro hc
      apply hbars.resolve_right
      intro hnone
      rw [hnone c List.mem_cons_self] at hc
      cases hc
    have hbars' : 0 < barsAfter bars c ∨ ∀ d ∈ cs, d.verb.isNote = false :=
      hbars.imp (fun hbars => hbars.trans_le (le_barsAfter bars c))
        (fun hnone => (List.forall_mem_cons.mp hnone).2)
    obtain ⟨ht, hplaced⟩ := h.play hc hnote hplay
    obtain ⟨hs', hrest⟩ := ih ht hcs hbars' hok
    refine ⟨hs', ?_⟩
    rw [hevents, ← List.singleton_append, slotsOf_append]
    apply hplaced.append hrest

end Played

/-- The commands name voices, start a measure, go on with bars and with notes that have a length,
and end with a reset. -/
def IsPart (cs : List Command) : Prop :=
  ∃ voices bar notes reset, cs = voices ++ bar :: (notes ++ [reset]) ∧
    (∀ c ∈ voices, c.verb = .voice) ∧ bar.verb = .measure ∧ (∀ c ∈ notes, BarOrNote c) ∧
    reset.verb = .reset

/-- The commands of a line, none if it cannot be read. -/
def commandsOf (line : Text) : List Command :=
  match Score.read line with
  | .ok cs => cs
  | .error _ => []

/-- The line is a part. -/
def PartLine (line : Text) : Prop := ∃ cs, Score.read line = .ok cs ∧ IsPart cs

section Lines

variable {a s s' : Transport Rat} {cs : List Command} {lines : List Text}

/-- The notes of a part are played where they are laid out, and behind it the transport stands in
front of the first measure again. -/
theorem At.part (h : At a 0 0 s) (hcs : IsPart cs) (hok : (s.schedule cs).outcome = .ok s') :
  At a 0 0 s' ∧ Placing a cs (slotsOf 0 0 cs) (s.schedule cs).events
  := by
  obtain ⟨voices, bar, notes, ⟨_, noun⟩, rfl, hvoices, hbar, hnotes, rfl⟩ := hcs
  have hsplit : voices ++ bar :: (notes ++ [⟨.reset, noun⟩]) =
      (voices ++ [bar]) ++ (notes ++ [⟨.reset, noun⟩]) := by simp
  have hopening : ∀ c ∈ voices ++ [bar], c.verb = .voice ∨ c.verb = .measure := by
    simpa [or_imp, forall_and, hbar] using fun c hc => Or.inl (hvoices c hc)
  have hsilent : ∀ c ∈ voices ++ [bar], c.verb.isNote = false := by
    intro c hc
    obtain hverb | hverb := hopening c hc
    · rw [hverb]
      rfl
    · rw [hverb]
      rfl
  have hpositive : 0 < (voices ++ [bar]).foldl barsAfter 0 := by
    rw [List.foldl_append, List.foldl_cons, List.foldl_nil, barsAfter, if_pos hbar]
    apply Nat.succ_pos
  rw [hsplit] at hok ⊢
  obtain ⟨t, ht, hok, hevents⟩ := Transport.schedule_append_eq_ok hok
  obtain ⟨u, hu, hok, hevents'⟩ := Transport.schedule_append_eq_ok hok
  cases hok
  obtain ⟨hat, hfirst⟩ := h.schedule (fun c hc => (hopening c hc).imp_right .inl) (.inr hsilent) ht
  obtain ⟨hat', hsecond⟩ := hat.schedule (fun c hc => .inr (hnotes c hc)) (.inl hpositive) hu
  have hlast : Placing a [⟨.reset, noun⟩] [] [] := Placing.of_not_isNote (by simp [Verb.isNote])
  refine ⟨hat'.rewind, ?_⟩
  rw [hevents, hevents', slotsOf_append _ _ (voices ++ [bar]), slotsOf_append _ _ notes]
  apply hfirst.append (hsecond.append hlast)

/-- The notes of lines that are parts are played where the layout of these lines puts them. -/
theorem At.block (h : At a 0 0 s) (hlines : ∀ line ∈ lines, PartLine line)
    (hok : (s.schedule (lines.flatMap commandsOf)).outcome = .ok s') :
  Placing a (lines.flatMap commandsOf) (blockSlots lines)
    (s.schedule (lines.flatMap commandsOf)).events
  := by
  induction lines generalizing s with
  | nil => apply Placing.of_not_isNote (List.forall_mem_nil _)
  | cons line lines ih =>
    obtain ⟨⟨cs, hread, hcs⟩, hlines⟩ := List.forall_mem_cons.mp hlines
    have hcommands : commandsOf line = cs := by rw [commandsOf, hread]
    have hslots : (lineSlots line : List (Nat × Slot Rat)) = slotsOf 0 0 cs :=
      lineSlots_of_ok (read_eq_ok.mp hread)
    rw [List.flatMap_cons, hcommands] at hok ⊢
    rw [blockSlots_eq, List.flatMap_cons, hslots, ← blockSlots_eq]
    obtain ⟨t, ht, hok, hevents⟩ := Transport.schedule_append_eq_ok hok
    obtain ⟨hat, hpart⟩ := h.part hcs ht
    rw [hevents]
    apply hpart.append (ih hat hlines hok)

/-- Lines that can be read by themselves are read before those that follow them. -/
theorem commands_lines {ls ms : List Text} (hlines : Text.Lines (ls ++ ms))
    (hls : ∀ l ∈ ls, ∃ cs, Score.read l = .ok cs) :
  commands (ls ++ ms).flatten = (commands ms.flatten).map (ls.flatMap commandsOf ++ ·)
  := by
  have hread : List.Forall₂ (fun l cs => commands l = .ok cs) ls (ls.map commandsOf) := by
    rw [List.forall₂_map_right_iff, List.forall₂_same]
    intro l hl
    obtain ⟨cs, hcs⟩ := hls l hl
    rw [commandsOf, hcs]
    exact read_eq_ok.mp hcs
  rw [commands_lines_append hlines hread, List.flatMap_def]

/-- Lines that can be read by themselves are read between what stands before and behind them. -/
theorem exists_commands_behind_lines {t : Text} {before after : List Text}
    (htext : Text.lines t = before ++ lines ++ after) {as : List Command}
    (hbefore : Score.read before.flatten = .ok as) (hne : as ≠ [])
    (hlines : ∀ line ∈ lines, ∃ cs, Score.read line = .ok cs) (hread : Score.read t = .ok cs) :
  ∃ ds, cs = as ++ (lines.flatMap commandsOf ++ ds)
  := by
  have hall := Text.lines_lines t
  rw [htext, List.append_assoc] at hall
  have hends : Text.endsLine before.flatten ∨ (lines ++ after).flatten = [] := by
    obtain hends | rfl | hnil := hall.endsLine_flatten_or
    · exact .inl hends
    · cases (commands_nil rfl).symm.trans (read_eq_ok.mp hbefore)
      contradiction
    · exact .inr (congrArg List.flatten hnil)
  rw [read_eq_ok, ← Text.flatten_lines t, htext, List.append_assoc, List.flatten_append,
    commands_append hends (read_eq_ok.mp hbefore), commands_lines hall.of_append hlines] at hread
  cases hafter : commands after.flatten with
  | error o =>
    rw [hafter] at hread
    cases hread
  | ok ds =>
    rw [hafter] at hread
    cases hread
    exact ⟨ds, rfl⟩

end Lines

end Layout

namespace Performance

open Layout

/-- Behind a checkpoint the transport stands in front of the first measure of its section. -/
theorem at_of_run_checkpoint [Memory] {playback : Playback} {head : List Command} {star : Command}
    (hstar : star.verb = .checkpoint) {q : Performance Rat}
    (h : run playback (head ++ [star]) = .ok q) :
  At q.transport 0 0 q.transport
  := by
  have hmeasures : q.transport.measures = (Measures.initial.after head).next star := by
    rw [measures_run h]
    simp
  rw [Measures.next, hstar] at hmeasures
  have hindex := congrArg Measures.index hmeasures
  have hcheckpoint := congrArg Measures.checkpoint hmeasures
  dsimp only [Transport.measures] at hindex hcheckpoint
  exact {
    checkpointIndex := rfl
    timeSignature := rfl
    measureDuration := rfl
    measureIndex := by omega
    measureStart := fun h => absurd h (Nat.lt_irrefl 0)
    offset := fun h => absurd h (Nat.lt_irrefl 0) }

/-- In exact arithmetic, the notes of lines that are parts and follow a checkpoint are played in the
measures, at the times and for the lengths at which the block of these lines is laid out. -/
theorem placing_of_run [Memory] {playback : Playback} {t : Text} {before lines after : List Text}
    (htext : Text.lines t = before ++ lines ++ after) {head : List Command} {star : Command}
    (hbefore : Score.read before.flatten = .ok (head ++ [star])) (hstar : star.verb = .checkpoint)
    (hlines : ∀ line ∈ lines, PartLine line) {cs : List Command} (hread : Score.read t = .ok cs)
    {p : Performance Rat} (hrun : run playback cs = .ok p) :
  ∃ (q : Performance Rat) (events later : List (Event Rat)),
    run playback (head ++ [star]) = .ok q ∧ p.events = q.events ++ events ++ later ∧
    Placing q.transport (lines.flatMap commandsOf) (blockSlots lines) events
  := by
  have hreads : ∀ line ∈ lines, ∃ cs, Score.read line = .ok cs :=
    fun line hline => (hlines line hline).imp fun _ => And.left
  obtain ⟨ds, rfl⟩ := exists_commands_behind_lines htext hbefore (by simp) hreads hread
  obtain ⟨q, hq⟩ := exists_run_of_append hrun
  obtain ⟨hwhole, -⟩ := schedule_of_run hrun
  obtain ⟨hopening, -⟩ := schedule_of_run hq
  obtain ⟨s, hs, hok, hevents⟩ := Transport.schedule_append_eq_ok (congrArg Schedule.outcome hwhole)
  obtain ⟨u, hu, -, hevents'⟩ := Transport.schedule_append_eq_ok hok
  obtain rfl : q.transport = s := by
    rw [hopening] at hs
    apply Except.ok.inj hs
  rw [hwhole, hopening, hevents', ← List.append_assoc] at hevents
  exact ⟨q, _, _, hq, hevents, (at_of_run_checkpoint hstar hq).block hlines hu⟩

/-- What stands above a section of two voices: a setting, a note of its own and the checkpoint. -/
def aboveVoices : List Text :=
  ["[ 120_bpm ][ 3/4 ]\n".toList, "| (Cn_4 1/4) ;\n".toList, "*\n".toList]

/-- A voice of two measures, one with a dot. -/
def highVoice : Text := "% sine | (An_4 1/4+)(Bn_4 1/8) | (Cn_5 1/2) ;\n".toList

/-- A voice of one measure. -/
def lowVoice : Text := "% square | (Cn_3 1/2) ;\n".toList

attribute [local instance] Memory.sixteenGigabytes in
/-- The two voices of a section in the second measure of a score are played as they are laid out. -/
theorem placing_of_run_twoVoices :
  let t := (aboveVoices ++ [highVoice, lowVoice]).flatten
  Text.lines t = aboveVoices ++ [highVoice, lowVoice] ++ [] ∧ PartLine highVoice ∧
    PartLine lowVoice ∧
    ∃ (head : List Command) (star : Command) (cs : List Command) (p q : Performance Rat)
      (events later : List (Event Rat)),
      Score.read aboveVoices.flatten = .ok (head ++ [star]) ∧ star.verb = .checkpoint ∧
      Score.read t = .ok cs ∧ run {} cs = .ok p ∧ run {} (head ++ [star]) = .ok q ∧
      p.events = q.events ++ events ++ later ∧
      Placing q.transport ([highVoice, lowVoice].flatMap commandsOf)
        (blockSlots [highVoice, lowVoice])
        events
  := by
  intro t
  have htext : Text.lines t = aboveVoices ++ [highVoice, lowVoice] ++ [] := by decide +kernel
  let note (name noun : String) : Command := ⟨.note name.toList, noun.toList⟩
  let bar : Command := ⟨.measure, ['|']⟩
  let reset : Command := ⟨.reset, []⟩
  let high := [⟨.voice, "sine".toList⟩] ++ bar ::
    ([note "An_4" "1/4+", note "Bn_4" "1/8", bar, note "Cn_5" "1/2"] ++ [reset])
  let low := [⟨.voice, "square".toList⟩] ++ bar :: ([note "Cn_3" "1/2"] ++ [reset])
  let head := [⟨.tempo, "120".toList⟩, ⟨.time, "3/4".toList⟩, bar, note "Cn_4" "1/4", reset]
  have hhigh : PartLine highVoice := by
    have hread : Score.read highVoice = .ok high := by decide +kernel
    exact ⟨_, hread, _, _, _, _, rfl, by decide, rfl, by decide +kernel, rfl⟩
  have hlow : PartLine lowVoice := by
    have hread : Score.read lowVoice = .ok low := by decide +kernel
    exact ⟨_, hread, _, _, _, _, rfl, by decide, rfl, by decide +kernel, rfl⟩
  have hbefore : Score.read aboveVoices.flatten = .ok (head ++ [⟨.checkpoint, ['*']⟩]) := by
    decide +kernel
  have hread : Score.read t = .ok (head ++ [⟨.checkpoint, ['*']⟩] ++ high ++ low) := by
    decide +kernel
  obtain ⟨p, hp⟩ : ∃ p : Performance Rat,
      run {} (head ++ [⟨.checkpoint, ['*']⟩] ++ high ++ low) = .ok p := by
    apply exists_run
    · decide +kernel
    · decide +kernel
  have hlines : ∀ line ∈ [highVoice, lowVoice], PartLine line :=
    List.forall_mem_cons.mpr ⟨hhigh, List.forall_mem_singleton.mpr hlow⟩
  obtain ⟨q, events, later, hq, hevents, hplacing⟩ :=
    placing_of_run htext hbefore rfl hlines hread hp
  exact ⟨htext, hhigh, hlow, _, _, _, p, q, events, later, hbefore, rfl, hread, hp, hq, hevents,
    hplacing⟩

end Performance

end Tunescript
