import Tunescript.Proofs.Editor.LinearHistory
import Tunescript.Proofs.Pitch.Names
import Tunescript.Proofs.Score.NoteSpans
import Tunescript.Proofs.Text.Ranges

/-!
# Inserted notes

A note that is inserted is written as a token of the grammar (`NoteToken.plain`), so that the reader
finds one command in it.  The two spaces behind it keep it apart from dots that follow, and no
parenthesis stands in it, so that it is also found from each of its characters by those who look at
the text around the cursor, whatever that is (`inserts_note`).
-/

namespace Tunescript

/-- No verb but a note is named with a separator. -/
theorem Verb.ofWord_of_separator_mem {w : Text} (h : Pitch.separator ∈ w) :
  Verb.ofWord w = .note w
  := by
  have hcontrols : ∀ v ∈ controls, Pitch.separator ∉ v.word := by
    decide
  have hnone : controls.find? (fun v => v.word == w) = none := by
    apply List.find?_eq_none.mpr
    intro v hv hword
    apply hcontrols v hv
    rw [eq_of_beq hword]
    apply h
  rw [ofWord, hnone]
  rfl

namespace Score

/-- A token by itself is read as one command. -/
theorem NoteToken.read_text (k : NoteToken) :
  read k.text = .ok [⟨Verb.ofWord k.name, k.fraction ++ k.inner ++ k.outer⟩]
  := by
  have hspelled := Spelled.phrase (k.spells []) (.filler filler_nil)
  rw [List.append_nil] at hspelled
  apply read_eq_ok.mpr
  apply (commands_of_spelled hspelled).2
  apply List.isChain_singleton

section Plain

variable {name fraction dots : Text} (hname : Run isNameChar name)
  (hfraction : Run isFractionChar fraction) (hdots : ∀ c ∈ dots, c = '+')

/-- The token of a name, a fraction and dots behind it, without anything that is not needed. -/
def NoteToken.plain : NoteToken where
  lead := []
  name := name
  gap := [' ']
  fraction := fraction
  inner := []
  tail := []
  outer := dots
  filler_lead := filler_nil
  run_name := hname
  run_gap := run_space
  run_fraction := hfraction
  dots_inner := dots_nil
  filler_tail := filler_nil
  dots_outer := hdots

namespace NoteToken

theorem inside_plain :
  (plain hname hfraction hdots).inside = name ++ ' ' :: fraction
  := by
  simp [inside, plain]

theorem text_plain :
  (plain hname hfraction hdots).text = noteText name fraction dots
  := by
  rw [text, body, inside_plain]
  simp [plain, noteText, noteOpening, noteClosing]

theorem length_body_plain :
  (plain hname hfraction hdots).body.length = name.length + fraction.length + 3
  := by
  rw [length_body, inside_plain, List.length_append, List.length_cons]
  omega

include hname hfraction hdots

theorem read_plain :
  read (noteText name fraction dots) = .ok [⟨Verb.ofWord name, fraction ++ dots⟩]
  := by
  rw [← text_plain hname hfraction hdots, read_text]
  simp [plain]

/-- At each of its characters from one parenthesis to the other the token is found with its dots. -/
theorem noteAt?_plain {a r : Text} {d : Nat}
    (hlimit : name.length + fraction.length + 3 ≤ scanLimit) (hr : Stops (· == dot) r)
    (hd : d < name.length + fraction.length + 3) :
  noteAt? (a ++ (noteText name fraction dots ++ r)) (a.length + d : Nat) =
    some ⟨a.length, a.length + (noteText name fraction dots).length⟩
  := by
  rw [← length_body_plain hname hfraction hdots] at hlimit hd
  rw [← text_plain hname hfraction hdots]
  apply noteAt?_token _ hlimit hr hd

/-- At each of its characters from one parenthesis to the other the pitch of the token is its
name. -/
theorem pitchAt?_plain {a r : Text} {d : Nat}
    (hlimit : name.length + fraction.length + 3 ≤ scanLimit) (hr : Stops (· == dot) r)
    (hd : d < name.length + fraction.length + 3) :
  pitchAt? (a ++ (noteText name fraction dots ++ r)) (a.length + d : Nat) =
    some ⟨a.length + 1, a.length + 1 + name.length⟩
  := by
  have hspace : ' ' ∉ name := hname.not_mem rfl
  rw [← length_body_plain hname hfraction hdots] at hlimit hd
  rw [← text_plain hname hfraction hdots, pitchAt?_token _ hlimit hr hd, inside_plain,
    List.append_assoc, List.cons_append, Text.indexOf?_append hspace]
  rfl

end NoteToken

end Plain

/-- The name stands behind the opening parenthesis of a token. -/
theorem slice_name_noteText (a name fraction dots r : Text) :
  Text.slice (a ++ (noteText name fraction dots ++ r)) (a.length + 1 : Nat)
    (some (a.length + 1 + name.length : Nat)) = name
  := by
  have hslice := Text.slice_append (a ++ [noteOpening]) name
    (' ' :: fraction ++ noteClosing :: (dots ++ r))
  simpa [noteText] using hslice

end Score

namespace Pitch

/-- The name of a note of the scale is one run of characters of a name. -/
theorem run_name {s : Spelling} {pitch : Text} {octave : Int} (hpitch : pitch ∈ s.classes)
    (hoctave : 0 ≤ octave ∧ octave ≤ 7) :
  Score.Run Score.isNameChar (name pitch octave)
  := by
  constructor
  · apply List.ne_nil_of_length_pos
    rw [length_name hpitch hoctave]
    apply Nat.zero_lt_succ
  · apply isNameChar_of_mem_name hpitch hoctave

end Pitch

namespace Action

/-- A length setting is split in front of its dots. -/
theorem splitDuration_append {fraction dots : Text}
    (hfraction : Score.Run Score.isFractionChar fraction) (hdots : ∀ c ∈ dots, c = '+') :
  splitDuration (fraction ++ dots) = (fraction, dots)
  := by
  have hother : ∀ c ∈ fraction, (c != Score.dot) = true := by
    intro c hc
    apply bne_iff_ne.mpr
    rintro rfl
    cases hfraction.2 _ hc
  have hstops : Score.Stops (· != Score.dot) dots := by
    intro c hc
    rw [hdots c (List.mem_of_mem_head? hc)]
    rfl
  obtain ⟨htake, hdrop⟩ := Score.takeWhile_exact hother hstops
  rw [splitDuration, htake, hdrop]

variable {s : Session} {E : Session → Prop} {pitch : Text}

theorem meets_newNote (hpitch : pitch ≠ Pitch.rest) {fraction dots : Text}
    (hsplit : splitDuration s.duration = (fraction, dots)) {Q : Text → Session → Prop}
    (h : Q (Score.noteText (Pitch.name pitch s.octave) fraction dots) s) :
  Meets (newNote pitch) s E Q
  := by
  apply meets_bind
  apply meets_get
  rw [hsplit]
  apply meets_pure
  rw [if_neg hpitch]
  apply h

/-- A note is put in at the cursor, with a gap behind it, and then played. -/
theorem meets_insertNote [Memory] {key : Text} (hpitch : Text.upper key ++ ['n'] ≠ Pitch.rest)
    {fraction dots : Text} (hsplit : splitDuration s.duration = (fraction, dots)) {c : Nat}
    (hc : s.cursor = c) (hle : c ≤ s.text.length)
    (hE : ∀ t : Session, t.text = s.text.take c ++
      (Score.noteText (Pitch.name (Text.upper key ++ ['n']) s.octave) fraction dots ++ noteGap) ++
        s.text.drop c → E t) :
  Meets (insertNote key) s E fun _ => E
  := by
  apply meets_bind
  apply meets_modify
  apply meets_bind
  apply meets_newNote (s := { s with history := s.history.record s.now }) hpitch hsplit
  apply meets_bind
  apply meets_putSnippet (s := { s with history := s.history.record s.now }) hc hle
  intro b message hb _
  apply (rests_playNote _ _).mono
  · intro t ht
    apply hE t
    rw [Session.text_eq_of_now_eq ht.now]
    apply hb
  · intro _ t ht
    apply hE t
    rw [Session.text_eq_of_now_eq ht.now]
    apply hb

end Action

namespace Session

variable {s : Session} {letter : Char} {key fraction dots : Text}

/-- The letters that notes are named with. -/
def letters : List Char := ['A', 'B', 'C', 'D', 'E', 'F', 'G']

/-- The letter of a note can be typed in either case. -/
theorem upper_key (hletter : letter ∈ letters) (hkey : key = [letter] ∨ key = [letter.toLower]) :
  Text.upper key = [letter]
  := by
  have hascii : letters.all fun l => (l.toNat < 0x80 ∧ l.toUpper = l) ∧
      l.toLower.toNat < 0x80 ∧ l.toLower.toUpper = l := by
    decide
  have hupper {c : Char} (hc : c.toNat < 0x80) : Text.upper [c] = [c.toUpper] := by
    rw [Text.upper, List.flatMap_singleton, Text.upperChar]
    apply if_pos hc
  obtain ⟨⟨hsmall, hsame⟩, hsmall', hlower⟩ :=
    of_decide_eq_true (List.all_eq_true.mp hascii letter hletter)
  obtain rfl | rfl := hkey
  · rw [hupper hsmall, hsame]
  · rw [hupper hsmall', hlower]

theorem natural_mem_classes (hletter : letter ∈ letters) :
  [letter, 'n'] ∈ Spelling.sharps.classes
  := by
  have hnatural : letters.all fun l => [l, 'n'] ∈ Spelling.sharps.classes := by
    decide
  apply of_decide_eq_true (List.all_eq_true.mp hnatural letter hletter)

/-- The token of a note is put in at the cursor, whether or not the note can be played then. -/
theorem text_insertNote [Memory] (hletter : letter ∈ letters)
    (hkey : key = [letter] ∨ key = [letter.toLower]) (hduration : s.duration = fraction ++ dots)
    (hfraction : Score.Run Score.isFractionChar fraction) (hdots : ∀ c ∈ dots, c = '+') {c : Nat}
    (hc : s.cursor = c) (hle : c ≤ s.text.length) :
  (s.perform (.edit (.insertNote key))).text = s.text.take c ++
    (Score.noteText (Pitch.name [letter, 'n'] s.octave) fraction dots ++ "  ".toList) ++
      s.text.drop c
  := by
  have hpitch : Text.upper key ++ ['n'] = [letter, 'n'] := by
    rw [upper_key hletter hkey]
    rfl
  have hsplit : Action.splitDuration s.duration = (fraction, dots) := by
    rw [hduration, Action.splitDuration_append hfraction hdots]
  rw [← hpitch]
  apply Action.Meets.after (E := fun t : Session => t.text = _)
  apply Action.meets_insertNote _ hsplit hc hle
  · intro t ht
    apply ht
  · rw [hpitch]
    intro hrest
    cases congrArg List.length hrest

/-- A note that is inserted is understood by everyone who reads it.  The token that is put in at the
cursor, with two spaces behind it, is read as one command with the name and the length of the note.
Whatever text surrounds it, from each of its characters from one parenthesis to the other, if these
are at most a hundred, the token is found with its dots, and its pitch is split into the pitch class
and the octave. -/
theorem inserts_note [Memory] (hletter : letter ∈ letters)
    (hkey : key = [letter] ∨ key = [letter.toLower])
    (hcursor : 0 ≤ s.cursor ∧ s.cursor ≤ s.text.length) (hoctave : 0 ≤ s.octave ∧ s.octave ≤ 7)
    (hduration : s.duration = fraction ++ dots)
    (hfraction : Score.Run Score.isFractionChar fraction) (hdots : ∀ c ∈ dots, c = '+') :
  let t := s.perform (.edit (.insertNote key))
  let name := Pitch.name [letter, 'n'] s.octave
  let body := '(' :: (name ++ ' ' :: fraction) ++ [')']
  let c := s.cursor.toNat
  t.text = s.text.take c ++ (body ++ dots ++ "  ".toList) ++ s.text.drop c ∧
  Score.read (body ++ dots) = .ok [⟨.note name, s.duration⟩] ∧
  (body.length ≤ 100 → ∀ cursor : Nat, c ≤ cursor → cursor < c + body.length →
    Score.noteAt? t.text cursor = some ⟨c, c + (body ++ dots).length⟩ ∧
    ∃ span, Score.pitchAt? t.text cursor = some span ∧
      Pitch.split? (t.buffer.slice span.start (some span.stop)) = some ([letter, 'n'], s.octave))
  := by
  intro t name body c
  have hmem := natural_mem_classes hletter
  have hc : s.cursor = c := (Int.toNat_of_nonneg hcursor.1).symm
  have hle : c ≤ s.text.length := by omega
  have hname : Score.Run Score.isNameChar name := Pitch.run_name hmem hoctave
  have hseparator : Pitch.separator ∈ name := List.mem_append_right _ List.mem_cons_self
  have htoken : Score.noteText name fraction dots = body ++ dots := by
    simp [Score.noteText, Score.noteOpening, Score.noteClosing, body]
  have hbody : body.length = name.length + fraction.length + 3 := by
    simp [body]
    omega
  have htext : t.text = s.text.take c ++ (Score.noteText name fraction dots ++ "  ".toList) ++
      s.text.drop c :=
    text_insertNote hletter hkey hduration hfraction hdots hc hle
  refine ⟨htoken ▸ htext, ?_, ?_⟩
  · rw [← htoken, Score.NoteToken.read_plain hname hfraction hdots,
      Verb.ofWord_of_separator_mem hseparator, hduration]
  · intro hlimit cursor hstart hstop
    obtain ⟨d, rfl⟩ := Nat.exists_eq_add_of_le hstart
    rw [hbody] at hlimit hstop
    have hd : d < name.length + fraction.length + 3 := by omega
    have hfront : (s.text.take c).length = c := by
      rw [List.length_take, Nat.min_eq_left hle]
    -- The gap keeps the dots of the token apart from dots that may follow the cursor.
    have hgap : Score.Stops (· == Score.dot) ("  ".toList ++ s.text.drop c) := by
      rintro x ⟨⟩
      rfl
    have hfound := Score.NoteToken.noteAt?_plain hname hfraction hdots (a := s.text.take c)
      hlimit hgap hd
    have hpitch := Score.NoteToken.pitchAt?_plain hname hfraction hdots (a := s.text.take c)
      hlimit hgap hd
    have hslice := Score.slice_name_noteText (s.text.take c) name fraction dots
      ("  ".toList ++ s.text.drop c)
    have hsplices : s.text.take c ++
      (Score.noteText name fraction dots ++ ("  ".toList ++ s.text.drop c)) =
        t.text := by
      rw [htext]
      simp only [List.append_assoc]
    rw [hsplices, hfront] at hfound hpitch hslice
    rw [htoken] at hfound
    refine ⟨hfound, _, hpitch, ?_⟩
    dsimp only
    rw [Buffer.slice, ← text, hslice, Pitch.split?_name hmem hoctave]

/-- A session with a dotted length, between parentheses and dots that belong to no note. -/
def strayMarks : Session :=
  { blank with buffer := Buffer.ofText "(a ++)".toList, duration := "3/8++".toList, cursor := 3 }

attribute [local instance] Memory.sixteenGigabytes in
/-- The note that is inserted in front of the dots is found with its own dots only. -/
theorem inserts_note_strayMarks :
  'C' ∈ letters ∧ strayMarks.duration = "3/8".toList ++ "++".toList ∧
    (strayMarks.perform (.edit (.insertNote ['c']))).text = "(a (Cn_4 3/8)++  ++)".toList ∧
    Score.read "(Cn_4 3/8)++".toList = .ok [⟨.note "Cn_4".toList, "3/8++".toList⟩] ∧
    Score.noteAt? "(a (Cn_4 3/8)++  ++)".toList (12 : Nat) = some ⟨3, 15⟩
  := by
  have hletter : 'C' ∈ letters := List.mem_of_elem_eq_true rfl
  have hduration : strayMarks.duration = "3/8".toList ++ "++".toList := by
    decide
  have hfraction : Score.Run Score.isFractionChar "3/8".toList := by
    constructor
    · decide
    · apply List.all_eq_true.mp rfl
  have hdots : ∀ c ∈ "++".toList, c = '+' := by
    simp
  have hcursor : 0 ≤ strayMarks.cursor ∧ strayMarks.cursor ≤ strayMarks.text.length := by
    decide +kernel
  have hoctave : 0 ≤ strayMarks.octave ∧ strayMarks.octave ≤ 7 := by
    decide
  have hkey : ['c'] = ['C'] ∨ ['c'] = ['C'.toLower] := .inr rfl
  obtain ⟨htext, hread, hfound⟩ :=
    inserts_note hletter hkey hcursor hoctave hduration hfraction hdots
  obtain ⟨hnote, -⟩ := hfound (by decide +kernel) 12 (by decide +kernel) (by decide +kernel)
  have hspliced : (strayMarks.perform (.edit (.insertNote ['c']))).text =
      "(a (Cn_4 3/8)++  ++)".toList := by
    rw [htext]
    decide +kernel
  rw [hspliced] at hnote
  apply And.intro hletter
  apply And.intro hduration
  apply And.intro hspliced
  apply And.intro hread hnote

end Session

end Tunescript
