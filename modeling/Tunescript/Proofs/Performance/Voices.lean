import Tunescript.Proofs.Performance.Settings
import Tunescript.Proofs.Score.VoiceLines

/-!
# The voices of previews

A note is played by the voice that was set last before it, wherever that stands on its line
(`Directions.voice_ofCommands`), and previewed with the voice of the last line before it that opens
with one. Both are the same voice if the last one that is set opens its line (`voiceAt_of_run`).
-/

namespace Tunescript

open Score (Phrase NoteToken Spelled WholeStars Filler LineVoice NoneOpens texts voiceAt)

/-- The voice of the directions is the one that was set last, if one was set. -/
theorem Directions.voice_ofCommands (cs : List Command) :
  ((∀ c ∈ cs, c.verb ≠ .voice) ∧ (ofCommands cs).voice = none) ∨
    ∃ us c vs, cs = us ++ c :: vs ∧ c.verb = .voice ∧ (∀ d ∈ vs, d.verb ≠ .voice) ∧
      (ofCommands cs).voice = some c.noun
  := by
  induction cs using List.reverseRecOn with
  | nil => exact .inl ⟨List.forall_mem_nil _, rfl⟩
  | append_singleton cs c ih =>
    have hlast : ofCommands (cs ++ [c]) = (ofCommands cs).after c := List.foldl_concat ..
    rw [hlast]
    by_cases hc : c.verb = .voice
    · refine .inr ⟨cs, c, [], rfl, hc, List.forall_mem_nil _, ?_⟩
      rw [after, hc]
    · have hvoice : ((ofCommands cs).after c).voice = (ofCommands cs).voice := by
        rw [after]
        cases hverb : c.verb with
        | voice => cases hc hverb
        | _ => rfl
      rw [hvoice]
      obtain ⟨hnone, hcs⟩ | ⟨us, d, vs, rfl, hd, hvs, hcs⟩ := ih
      · exact .inl ⟨List.forall_mem_append.mpr ⟨hnone, List.forall_mem_singleton.mpr hc⟩, hcs⟩
      · refine .inr ⟨us, d, vs ++ [c], by simp, hd, ?_, hcs⟩
        exact List.forall_mem_append.mpr ⟨hvs, List.forall_mem_singleton.mpr hc⟩

/-- The phrase that sets the last voice, if one is set, opens its line and has its name as the
second word there; the given text stands behind the phrases. -/
def Announced (ps : List Phrase) (behind : Text) : Prop :=
  ∀ us p vs, ps = us ++ p :: vs → p.command.verb = .voice → (∀ q ∈ vs, q.command.verb ≠ .voice) →
    p.OpensLine (texts us) ∧ p.Worded (texts vs ++ behind)

/-- Where the last voice is announced it is the voice of the directions that the last line names. -/
theorem Announced.lineVoice {ps qs : List Phrase} {t behind : Text} (h : Announced ps behind)
    (hps : Spelled (ps ++ qs) t) :
  LineVoice ps behind
    ((Directions.ofCommands (ps.map Phrase.command)).voice.getD Oscillator.defaultVoice)
  := by
  have hnone {vs : List Phrase} (front : Text) (hmem : vs ⊆ ps)
      (hvs : ∀ p ∈ vs, p.command.verb ≠ .voice) : NoneOpens front vs := by
    rintro us p ws rfl hopens
    have hp : p ∈ ps := hmem (List.mem_append_right us List.mem_cons_self)
    obtain ⟨r, hp⟩ := hps.exists_spells (List.mem_append_left _ hp)
    apply hvs p (by simp) (hp.exists_voice hopens.1).1
  obtain ⟨hcs, hvoice⟩ | ⟨us, c, vs, hcs, hc, hvs, hvoice⟩ :=
    Directions.voice_ofCommands (ps.map Phrase.command)
  · rw [hvoice]
    apply LineVoice.default
    apply hnone [] (List.Subset.refl _)
    intro p hp
    apply hcs _ (List.mem_map_of_mem hp)
  · obtain ⟨us, ws, rfl, rfl, hws⟩ := List.map_eq_append_iff.mp hcs
    obtain ⟨p, vs, rfl, rfl, rfl⟩ := List.map_eq_cons_iff.mp hws
    have hvs (q : Phrase) (hq : q ∈ vs) : q.command.verb ≠ .voice := hvs _ (List.mem_map_of_mem hq)
    obtain ⟨hopens, hworded⟩ := h us p vs rfl hc hvs
    rw [hvoice]
    apply LineVoice.last rfl hopens hworded
    apply hnone _ _ hvs
    intro q hq
    simp [hq]

namespace Performance

variable {α : Type} [Scalar α]

/-- A bar with a space behind it. -/
def spacedBar : Phrase := ⟨"| ".toList, ⟨.measure, ['|']⟩⟩

/-- A voice with one character behind it. -/
def squareVoice (gap : Char) : Phrase := ⟨"% square".toList ++ [gap], ⟨.voice, "square".toList⟩⟩

/-- A dotted note of a quarter. -/
def dottedQuarter : Phrase := ⟨"(Cn_4 1/4)+".toList, ⟨.note "Cn_4".toList, "1/4+".toList⟩⟩

/-- The token of this note. -/
def quarterToken : NoteToken := Score.quarterNote [] (List.forall_mem_nil _)

theorem spells_spacedBar (r : Text) :
  Score.Spells r spacedBar.text spacedBar.command
  := Score.Spells.measure (List.forall_mem_nil _) Score.filler_space

theorem spells_squareVoice {gap : Char} (hgap : Score.isFiller gap) (r : Text) :
  Score.Spells r (squareVoice gap).text (squareVoice gap).command
  := by
  have hname : Score.Run Score.isNameChar "square".toList :=
    ⟨List.cons_ne_nil _ _, List.all_eq_true.mp rfl⟩
  have hbehind : Filler [gap] := List.forall_mem_singleton.mpr hgap
  exact Score.Spells.voice (List.forall_mem_nil _) Score.filler_space hname hbehind

theorem spelled_dottedQuarter :
  Spelled [dottedQuarter] dottedQuarter.text
  := by
  have hspells : Score.Spells [] dottedQuarter.text dottedQuarter.command :=
    quarterToken.spells []
  have hspelled := Spelled.phrase hspells (.filler (List.forall_mem_nil _))
  rwa [List.append_nil] at hspelled

end Performance

end Tunescript
