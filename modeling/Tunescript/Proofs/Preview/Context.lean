import Tunescript.Proofs.Layout.MusicKept
import Tunescript.Proofs.Performance.Settings
import Tunescript.Proofs.Preview.LatestLines
import Tunescript.Proofs.Score.Acceptance
import Tunescript.Proofs.Text.RowStarts

/-!
# The context of a section

The preview of a section puts the context of the section, which is taken line by line, in place of
all that stands above it.  Both scores are read in two parts (`commands_split`), so that the preview
sounds as the section does in its score exactly if the context is a score without notes from which
the section goes on as it does there; for that it suffices that the context gives the directions
that all lines above the section give (`sectionScore_soundsAs_iff`).  A context line that also holds
a note breaks the preview (`not_sectionScore_soundsAs_notedVoice`).
-/

namespace Tunescript

open Score
open Text (endsLine rows)

namespace Text

/-- Every row but the last ends with its line end. -/
theorem endsLine_of_mem_dropLast_rows {t r : Text} (h : r ∈ (rows t).dropLast) :
  endsLine r
  := by
  obtain ⟨i, hi⟩ := List.mem_iff_getElem?.mp h
  rw [List.getElem?_dropLast] at hi
  split at hi
  · obtain ⟨u, -, rfl⟩ := lineEnd_of_row hi (by omega)
    apply endsLine_iff.mpr ⟨u, rfl⟩
  · cases hi

/-- Rows in front of another row end with a line end if there are any. -/
theorem endsLine_flatten {ls : List Text} (h : ∀ l ∈ ls, endsLine l) :
  endsLine ls.flatten ∨ ls.flatten = []
  := by
  obtain rfl | ⟨ms, l, rfl⟩ := List.eq_nil_or_concat ls
  · apply Or.inr rfl
  · apply Or.inl
    obtain ⟨u, hu⟩ := Text.endsLine_iff.mp (h l (by simp))
    apply Text.endsLine_iff.mpr
    use ms.flatten ++ u
    simp [hu]

end Text

/-- A text is read in two parts if the first ends with its line and no command goes on in the
second. -/
theorem commands_split {a b : Text} (ha : endsLine a ∨ a = []) (hb : Stop b) {cs : List Command} :
  commands (a ++ b) = .ok cs ↔
    ∃ as bs, commands a = .ok as ∧ commands b = .ok bs ∧ cs = as ++ bs
  := by
  obtain ha | rfl := ha
  · cases h : commands a with
    | error o =>
      constructor
      · intro hab
        cases not_stop_of_commands_append (.inl ha) h hab hb
      · rintro ⟨as, bs, ⟨⟩, -⟩
    | ok as =>
      rw [commands_append (.inl ha) h]
      constructor
      · intro hab
        obtain ⟨bs, hbs, rfl⟩ := map_eq_ok hab
        exact ⟨as, bs, rfl, hbs, rfl⟩
      · rintro ⟨as, bs, ⟨⟩, hbs, rfl⟩
        rw [hbs]
        rfl
  · rw [List.nil_append]
    constructor
    · intro h
      exact ⟨[], cs, commands_nil rfl, h, rfl⟩
    · rintro ⟨as, bs, has, hbs, rfl⟩
      rw [commands_nil rfl] at has
      cases has
      apply hbs

namespace Preview

/-- The context of a section consists of lines above it. -/
theorem mem_take_of_mem_context {ls : List Text} {stop : Nat} {l : Text} (h : l ∈ context ls stop) :
  l ∈ ls.take stop
  := by
  obtain ⟨is, -, -, hcontext⟩ := exists_contextOf false false false (ls.take stop)
  rw [context, hcontext] at h
  obtain ⟨i, -, hl⟩ := List.mem_filterMap.mp h
  apply List.mem_of_getElem? hl

/-- The text is a score of which this is heard. -/
def SoundsAs [Memory] {α : Type} [Scalar α] (playback : Playback) (t : Text) (hs : List (Heard α)) :
    Prop :=
  ∃ cs p, Score.read t = .ok cs ∧ Performance.run playback cs = .ok p ∧
    p.events.map Event.heard = hs

variable {α : Type} [Scalar α] {playback : Playback} {t : Text} {cs : List Command}

/-- A score sounds so exactly if its commands go on so from the start. -/
theorem soundsAs_iff [Memory] {hs : List (Heard α)} :
  SoundsAs playback t hs ↔
    ∃ cs, commands t = .ok cs ∧ Continues playback Transport.initial cs hs
  := by
  simp only [SoundsAs, ← continues_initial_iff, read_eq_ok, exists_and_left]

/-- Behind commands that make sense and place no event, commands go on as from the transport that
these leave. -/
theorem continues_append_iff [Memory] {s : Transport α} {as : List Command} {hs : List (Heard α)}
    (h : Transport.initial.schedule as = ⟨[], .ok s⟩) :
  Continues playback Transport.initial (as ++ cs) hs ↔ Continues playback s cs hs
  := by
  rw [Continues, Transport.schedule_append (congrArg Schedule.outcome h), h]
  rfl

/-- Commands that go on with as many events as there are notes among the last of them place none of
these before those. -/
theorem schedule_of_continues_append [Memory] {as : List Command} {hs : List (Heard α)}
    (h : Continues playback Transport.initial (as ++ cs) hs)
    (hlength : hs.length = cs.countP fun c => c.verb.isNote) :
  ∃ s, (Transport.initial.schedule as : Schedule α) = ⟨[], .ok s⟩
  := by
  obtain ⟨⟨g, hg⟩, -⟩ := h
  obtain ⟨hheard, hsetting⟩ := Prod.mk.inj hg
  obtain ⟨t, ht, -⟩ := map_eq_ok hsetting
  obtain ⟨s, hs, hok, hevents⟩ := Transport.schedule_append_eq_ok ht
  rw [hevents] at hheard
  have hlengths := congrArg List.length hheard
  rw [List.length_map, List.length_append, Transport.length_events_schedule hok,
    hlength] at hlengths
  have hnone := List.eq_nil_of_length_eq_zero (Nat.add_eq_right.mp hlengths)
  use s
  rw [← hnone, ← hs]

/-- The section at a cursor below a checkpoint line starts with that line, and its preview puts the
context in front of it. -/
theorem sectionScore_of_checkpointAbove {cursor : Int} {i : Nat}
    (h : checkpointAbove (Buffer.ofText t) cursor = .ok (some i)) :
  (∃ line ls, (rows t).drop i = line :: ls ∧ isCheckpointLine line) ∧
    sectionScore t cursor = .ok ((context (rows t) i).flatten ++ ((rows t).drop i).flatten)
  := by
  obtain ⟨n, hn, hlast⟩ := bind_eq_ok h
  have hlast := Except.ok.inj hlast
  rw [Buffer.lines_ofText] at hlast
  constructor
  · obtain ⟨⟨line, hline, hcheckpoint⟩, -⟩ := (lastCheckpoint?_eq_some_iff _ _).mp hlast
    rw [List.getElem?_take] at hline
    split at hline
    · obtain ⟨hi, rfl⟩ := List.getElem?_eq_some_iff.mp hline
      exact ⟨_, _, List.drop_eq_getElem_cons hi, hcheckpoint⟩
    · cases hline
  · rw [sectionScore_eq hn, hlast]
    rfl

/-- No command goes on from above a checkpoint line, so that the section is read by itself, behind
all lines above it and behind its context. -/
theorem commands_section {i : Nat}
    (hcheckpoint : ∃ line ls, (rows t).drop i = line :: ls ∧ isCheckpointLine line)
    {ls : List Text} (hls : ∀ l ∈ ls, l ∈ (rows t).take i) {cs : List Command} :
  commands (ls.flatten ++ ((rows t).drop i).flatten) = .ok cs ↔
    ∃ as bs, commands ls.flatten = .ok as ∧ commands ((rows t).drop i).flatten = .ok bs ∧
      cs = as ++ bs
  := by
  obtain ⟨line, ms, hdrop, hline⟩ := hcheckpoint
  apply commands_split
  · apply Text.endsLine_flatten
    intro l hl
    have hlt : i < (rows t).length := by
      apply Nat.lt_of_not_le
      intro hle
      rw [List.drop_eq_nil_of_le hle] at hdrop
      cases hdrop
    apply Text.endsLine_of_mem_dropLast_rows
    rw [List.dropLast_eq_take]
    apply List.take_subset_take_left _ (Nat.le_sub_one_of_lt hlt) (hls l hl)
  · rw [hdrop, List.flatten_cons]
    apply Layout.stop_of_isCheckpointLine hline

/-- In a score whose commands give a performance, with a checkpoint line at or above the cursor, the
preview of the section sounds as the section does there exactly if the context is a score without
events, behind which the commands of the section go on so.  They are heard so if the context gives
the directions of all commands above the section. -/
theorem sectionScore_soundsAs_iff [Memory] {cursor : Int} {i : Nat} {p : Performance α}
    (hread : Score.read t = .ok cs) (hrun : Performance.run playback cs = .ok p)
    (hi : checkpointAbove (Buffer.ofText t) cursor = .ok (some i)) :
  ∃ score above part, sectionScore t cursor = .ok score ∧
    Score.read (Text.rowsBefore t i) = .ok above ∧
    Score.read ((rows t).drop i).flatten = .ok part ∧ cs = above ++ part ∧
    let hs := (p.events.drop (above.countP fun c => c.verb.isNote)).map Event.heard
    (SoundsAs playback score hs ↔ ∃ header s,
      Score.read (context (rows t) i).flatten = .ok header ∧
        Transport.initial.schedule header = ⟨[], .ok s⟩ ∧ Continues playback s part hs) ∧
    ∀ header s, Score.read (context (rows t) i).flatten = .ok header →
      Transport.initial.schedule header = ⟨[], .ok s⟩ →
      Directions.ofCommands header = Directions.ofCommands above →
      ∃ g, (s.schedule part).heard = (hs, .ok g)
  := by
  obtain ⟨hcheckpoint, hscore⟩ := sectionScore_of_checkpointAbove hi
  have hcommands := read_eq_ok.mp hread
  rw [← Text.rowsBefore_append t i, Text.rowsBefore] at hcommands
  obtain ⟨above, part, habove, hpart, rfl⟩ :=
    (commands_section hcheckpoint fun _ h => h).mp hcommands
  obtain ⟨s, hs, hevents⟩ := Performance.heard_schedule_of_run hrun
  refine ⟨_, above, part, hscore, read_eq_ok.mpr habove, read_eq_ok.mpr hpart, rfl, ?_, ?_⟩
  · constructor
    · intro hsounds
      obtain ⟨ds, hds, hcontinues⟩ := soundsAs_iff.mp hsounds
      obtain ⟨header, part', hheader, hpart', rfl⟩ :=
        (commands_section hcheckpoint fun _ h => mem_take_of_mem_context h).mp hds
      cases hpart.symm.trans hpart'
      obtain ⟨hheard, hsetting⟩ := Prod.mk.inj hevents
      obtain ⟨s₁, hs₁, -⟩ := map_eq_ok hsetting
      have hlength := Transport.length_events_schedule hs₁
      rw [← List.length_map, hheard] at hlength
      obtain ⟨s', hs'⟩ := schedule_of_continues_append hcontinues hlength
      exact ⟨header, s', read_eq_ok.mpr hheader, hs', (continues_append_iff hs').mp hcontinues⟩
    · rintro ⟨header, s', hheader, hs', hcontinues⟩
      apply soundsAs_iff.mpr
      refine ⟨header ++ part, ?_, (continues_append_iff hs').mpr hcontinues⟩
      apply (commands_section hcheckpoint fun _ h => mem_take_of_mem_context h).mpr
      exact ⟨header, part, read_eq_ok.mp hheader, hpart, rfl⟩
  · intro header s' hheader hs' hdirections
    have hsetting : s'.setting = s.setting := by
      rw [Directions.setting_of_schedule (congrArg Schedule.outcome hs'), hdirections,
        Directions.setting_of_schedule hs]
    exact ⟨_, (Transport.heard_schedule_congr hsetting part).trans hevents⟩

/-- A score of two sections, the first with a note on a line of its own. -/
def twoSections : Text :=
  "[ 90_bpm ]\n[ 3/4 ]\n% square\n| (Cn_4 1/4)\n*\n| (Dn_4 1/4)".toList

/-- The commands on the lines of the first section that set something. -/
def settingLines : List Command :=
  [⟨.tempo, "90".toList⟩, ⟨.time, "3/4".toList⟩, ⟨.voice, "square".toList⟩]

/-- The commands on the other line of the first section. -/
def noteLine : List Command := [⟨.measure, ['|']⟩, ⟨.note "Cn_4".toList, "1/4".toList⟩]

/-- The commands of the second section. -/
def secondSection : List Command :=
  [⟨.checkpoint, ['*']⟩, ⟨.measure, ['|']⟩, ⟨.note "Dn_4".toList, "1/4".toList⟩]

attribute [local instance] Memory.sixteenGigabytes in
/-- The preview of the second section sounds as that section. -/
theorem sectionScore_soundsAs_twoSections :
  Score.read twoSections = .ok (settingLines ++ noteLine ++ secondSection) ∧
    checkpointAbove (Buffer.ofText twoSections) 50 = .ok (some 4) ∧
    ∃ p : Performance Float,
      Performance.run {} (settingLines ++ noteLine ++ secondSection) = .ok p ∧
        ∃ score, sectionScore twoSections 50 = .ok score ∧
          SoundsAs {} score ((p.events.drop 1).map Event.heard)
  := by
  have hread : Score.read twoSections = .ok (settingLines ++ noteLine ++ secondSection) := by
    decide +kernel
  have hi : checkpointAbove (Buffer.ofText twoSections) 50 = .ok (some 4) := by decide +kernel
  obtain ⟨p, hp⟩ : ∃ p : Performance Float,
      Performance.run {} (settingLines ++ noteLine ++ secondSection) = .ok p := by
    apply Performance.exists_run
    · decide +kernel
    · decide +kernel
  refine ⟨hread, hi, p, hp, ?_⟩
  obtain ⟨score, above, part, hscore, habove, hpart, -, hiff, hdirections⟩ :=
    sectionScore_soundsAs_iff hread hp hi
  have habove' : Score.read (Text.rowsBefore twoSections 4) = .ok (settingLines ++ noteLine) := by
    decide +kernel
  have hpart' : Score.read ((rows twoSections).drop 4).flatten = .ok secondSection := by
    decide +kernel
  cases habove.symm.trans habove'
  cases hpart.symm.trans hpart'
  have hheader : Score.read (context (rows twoSections) 4).flatten = .ok settingLines := by
    decide +kernel
  have hok : (Transport.initial.schedule settingLines : Schedule Float).outcome.isOk := by
    decide +kernel
  obtain ⟨s, hs⟩ := exists_of_isOk hok
  have hnone := List.eq_nil_of_length_eq_zero (Transport.length_events_schedule hs)
  have hschedule : Transport.initial.schedule settingLines = ⟨[], .ok s⟩ := by rw [← hnone, ← hs]
  have hsound : ∀ e ∈ (Transport.initial.schedule (settingLines ++ secondSection) :
      Schedule Float).events, e.Sounds {} := by
    decide +kernel
  rw [Transport.schedule_append hs, hnone] at hsound
  have hcontinues := hdirections settingLines s hheader hschedule rfl
  exact ⟨score, hscore, hiff.mpr ⟨settingLines, s, hheader, hschedule, hcontinues, hsound⟩⟩

/-- A score of two sections, the first with a note on its voice line. -/
def notedVoice : Text :=
  "[ 60_bpm ][ 4/4 ]\n*\n% sine | (Cn_4 1/4) ;\n*\n% sine | (Dn_4 1/4) ;".toList

/-- The commands on the first line. -/
def tempoLine : List Command := [⟨.tempo, "60".toList⟩, ⟨.time, "4/4".toList⟩]

/-- The commands on a voice line with a note. -/
def voiceLine (name : String) : List Command :=
  [⟨.voice, "sine".toList⟩, ⟨.measure, ['|']⟩, ⟨.note name.toList, "1/4".toList⟩, ⟨.reset, []⟩]

/-- The command on a checkpoint line. -/
def checkpointLine : List Command := [⟨.checkpoint, ['*']⟩]

attribute [local instance] Memory.sixteenGigabytes in
/-- The preview of the second section also plays the note of the first. -/
theorem not_sectionScore_soundsAs_notedVoice :
  ∃ cs above score, ∃ p : Performance Float, Score.read notedVoice = .ok cs ∧
    Performance.run {} cs = .ok p ∧
    checkpointAbove (Buffer.ofText notedVoice) 50 = .ok (some 3) ∧
    Score.read (Text.rowsBefore notedVoice 3) = .ok above ∧
    sectionScore notedVoice 50 = .ok score ∧
    ¬SoundsAs {} score ((p.events.drop (above.countP fun c => c.verb.isNote)).map Event.heard)
  := by
  let above := tempoLine ++ checkpointLine ++ voiceLine "Cn_4"
  let part := checkpointLine ++ voiceLine "Dn_4"
  have hread : Score.read notedVoice = .ok (above ++ part) := by decide +kernel
  have habove : Score.read (Text.rowsBefore notedVoice 3) = .ok above := by decide +kernel
  have hi : checkpointAbove (Buffer.ofText notedVoice) 50 = .ok (some 3) := by decide +kernel
  have hscore : sectionScore notedVoice 50 =
      .ok "[ 60_bpm ][ 4/4 ]\n% sine | (Cn_4 1/4) ;\n*\n% sine | (Dn_4 1/4) ;".toList := by
    decide +kernel
  obtain ⟨p, hp⟩ : ∃ p : Performance Float, Performance.run {} (above ++ part) = .ok p := by
    apply Performance.exists_run
    · decide +kernel
    · decide +kernel
  refine ⟨above ++ part, above, _, p, hread, hp, hi, habove, hscore, ?_⟩
  rintro ⟨cs, q, hcs, hq, hheard⟩
  have hpreview : Score.read
      "[ 60_bpm ][ 4/4 ]\n% sine | (Cn_4 1/4) ;\n*\n% sine | (Dn_4 1/4) ;".toList =
        .ok (tempoLine ++ voiceLine "Cn_4" ++ part) := by
    decide +kernel
  cases hcs.symm.trans hpreview
  -- Two notes are heard of the preview, but only one of the section.
  have hlength := congrArg List.length hheard
  rw [List.length_map, List.length_map, List.length_drop, Performance.length_events_of_run hp,
    Performance.length_events_of_run hq] at hlength
  revert hlength
  decide

end Preview

end Tunescript
