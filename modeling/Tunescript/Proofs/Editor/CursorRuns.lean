import Tunescript.Proofs.Editor.CursorMoves

/-!
# Runs that keep the cursor in the text

Transposing puts another name in the place of a pitch and leaves the cursor where it is.  A name
that is shorter than what it replaces takes text away from behind, so that the cursor may end up
outside; every other operation keeps it inside.  A run therefore keeps the cursor in the text
exactly if all its transpositions fit (`inText_run_iff`), and then no operation asks for a position
or a line that does not exist.  Where there is nothing to transpose, a transposition is refused, and
all that it changes are the history and the message (`meets_transposeNote_of_refuses`).
-/

namespace Tunescript

namespace Session

/-- Transposing puts a name in the place of a span: the pitch of the note at the cursor. -/
def Transposes (s : Session) (delta : Int) (span : Span) (name : Text) : Prop :=
  ∃ pitch octave pitch' octave',
    Score.pitchAt? s.text s.cursor = some span ∧
    Pitch.split? (s.buffer.slice span.start (some span.stop)) = some (pitch, octave) ∧
    Pitch.transpose pitch octave delta = .ok (pitch', octave') ∧
    name = Pitch.name pitch' octave'

/-- A transposition by so many semitones is refused, with a message to the user. -/
inductive Refuses (s : Session) (delta : Int) : String → Prop
  /-- There is no pitch at the cursor, and the user is told nothing. -/
  | noPitch (hspan : Score.pitchAt? s.text s.cursor = none) : s.Refuses delta s.message
  /-- What stands at the cursor is no pitch class with an octave. -/
  | noName {span : Span} (hspan : Score.pitchAt? s.text s.cursor = some span)
    (hsplit : Pitch.split? (s.buffer.slice span.start (some span.stop)) = none) :
    s.Refuses delta "Failed to parse note for transposition"
  /-- The pitch class is in no spelling, or the note would leave the octaves of the scale. -/
  | noNote {span : Span} {pitch : Text} {octave : Int} {e : Pitch.TransposeError}
    (hspan : Score.pitchAt? s.text s.cursor = some span)
    (hsplit : Pitch.split? (s.buffer.slice span.start (some span.stop)) = some (pitch, octave))
    (htranspose : Pitch.transpose pitch octave delta = .error e) : s.Refuses delta e.message

/-- A transposition is refused exactly if it transposes nothing. -/
theorem refuses_iff (s : Session) (delta : Int) :
  (∃ message, s.Refuses delta message) ↔ ¬∃ span name, s.Transposes delta span name
  := by
  constructor
  · rintro ⟨message, h⟩ ⟨span, name, pitch, octave, pitch', octave', hspan, hsplit, htranspose, -⟩
    cases h with
    | noPitch hspan' =>
      rw [hspan'] at hspan
      cases hspan
    | noName hspan' hsplit' =>
      obtain rfl := Option.some.inj (hspan'.symm.trans hspan)
      rw [hsplit'] at hsplit
      cases hsplit
    | noNote hspan' hsplit' htranspose' =>
      obtain rfl := Option.some.inj (hspan'.symm.trans hspan)
      cases hsplit'.symm.trans hsplit
      rw [htranspose'] at htranspose
      cases htranspose
  · intro h
    cases hspan : Score.pitchAt? s.text s.cursor with
    | none => exact ⟨_, .noPitch hspan⟩
    | some span =>
      cases hsplit : Pitch.split? (s.buffer.slice span.start (some span.stop)) with
      | none => exact ⟨_, .noName hspan hsplit⟩
      | some r =>
        obtain ⟨pitch, octave⟩ := r
        cases htranspose : Pitch.transpose pitch octave delta with
        | error e => exact ⟨_, .noNote hspan hsplit htranspose⟩
        | ok r => cases h ⟨span, _, pitch, octave, r.1, r.2, hspan, hsplit, htranspose, rfl⟩

/-- A transposition leaves at least so much text that the cursor is still in it. -/
def Fits (s : Session) : Operation → Prop
  | .edit (.transposeNote delta) => ∀ span name, s.Transposes delta span name →
    s.cursor + span.stop ≤ s.text.length + span.start + name.length
  | _ => True

/-- The cursor is put from outside only at a position of the text. -/
def PlacesInText (s : Session) : Operation → Prop
  | .place cursor => 0 ≤ cursor ∧ cursor ≤ s.text.length
  | _ => True

/-- The operation succeeds, or fails, but not because of a position or a line that does not
exist. -/
def FindsPositions [Memory] (s : Session) (op : Operation) : Prop :=
  ∀ e t, EStateM.run op.action s = .error e t → e.isPosition = false

end Session

namespace Action

variable {s : Session} {delta : Int}

variable [Memory]

/-- A transposition puts the name in the place of the span and then plays the note. -/
theorem meets_transposeNote_splice {span : Span} {name : Text} (h : s.Transposes delta span name)
    {E : Session → Prop}
    (hE : ∀ t : Session, t.cursor = s.cursor → t.history = s.history.record s.now →
      t.text = s.text.take span.start ++ name ++ s.text.drop span.stop → E t) :
  Meets (transposeNote delta) s E fun _ => E
  := by
  obtain ⟨pitch, octave, pitch', octave', hspan, hsplit, htranspose, rfl⟩ := h
  obtain ⟨hstart, hstop⟩ := Score.pitchAt?_within hspan
  apply meets_bind
  apply meets_modify
  apply meets_bind
  apply meets_get
  dsimp only [Session.text] at hspan ⊢
  rw [hspan]
  dsimp only
  rw [hsplit]
  dsimp only
  rw [htranspose]
  apply meets_bind
  apply meets_removeRange (s := { s with history := s.history.record s.now }) hstart hstop
  intro b hb hlen
  dsimp only [Session.text] at hb hlen hstop
  have hroom : span.start ≤ b.text.length := by
    omega
  have hbefore : (s.buffer.text.take span.start).length = span.start := by
    rw [List.length_take]
    omega
  apply meets_bind
  apply meets_insertAt (s := { s with history := s.history.record s.now, buffer := b }) hroom
  intro b' hb' _
  dsimp only [Session.text] at hb'
  rw [hb, List.take_left' hbefore, List.drop_left' hbefore] at hb'
  have hend (t : Session) (ht : Session.SameMoment
      { s with history := s.history.record s.now, buffer := b' } t) : E t := by
    have hcursor := Session.cursor_eq_of_now_eq ht.now
    have htext := Session.text_eq_of_now_eq ht.now
    apply hE t hcursor ht.history
    rw [htext]
    apply hb'
  apply meets_bind
  apply meets_say
  apply meets_bind
  apply meets_get
  split
  · apply hend
    exact ⟨rfl, rfl⟩
  · apply (rests_playNote _ _).mono
    · intro t ht
      apply hend t
      exact ⟨ht.now, ht.history⟩
    · intro _ t ht
      apply hend t
      exact ⟨ht.now, ht.history⟩

/-- The length of the text after a transposition, which then plays the note. -/
theorem meets_transposeNote {span : Span} {name : Text} (h : s.Transposes delta span name)
    {E : Session → Prop}
    (hE : ∀ t : Session, t.cursor = s.cursor → t.history = s.history.record s.now →
      t.text.length + span.stop = s.text.length + span.start + name.length → E t) :
  Meets (transposeNote delta) s E fun _ => E
  := by
  obtain ⟨-, -, -, -, hspan, -⟩ := id h
  obtain ⟨hstart, hstop⟩ := Score.pitchAt?_within hspan
  apply meets_transposeNote_splice h
  intro t hcursor hhistory htext
  apply hE t hcursor hhistory
  rw [htext, List.length_append, List.length_append, List.length_take, List.length_drop]
  omega

/-- A refused transposition does not fail.  It records the moment and gives its message, and that is
all. -/
theorem meets_transposeNote_of_refuses {message : String} (h : s.Refuses delta message) :
  Meets (transposeNote delta) s (fun _ => False) fun _ t =>
    t = { s with history := s.history.record s.now, message := message }
  := by
  apply meets_bind
  apply meets_modify
  apply meets_bind
  apply meets_get
  cases h with
  | noPitch hspan =>
    dsimp only [Session.text] at hspan ⊢
    rw [hspan]
    exact meets_pure rfl
  | noName hspan hsplit =>
    dsimp only [Session.text] at hspan ⊢
    rw [hspan]
    dsimp only
    rw [hsplit]
    apply meets_say rfl
  | noNote hspan hsplit htranspose =>
    dsimp only [Session.text] at hspan ⊢
    rw [hspan]
    dsimp only
    rw [hsplit]
    dsimp only
    rw [htranspose]
    apply meets_say rfl

/-- Without a note to transpose the text stays as it is. -/
theorem meets_transposeNote_of_not (h : ¬∃ span name, s.Transposes delta span name)
    {E : Session → Prop}
    (hE : ∀ t : Session, t.now = s.now → t.history = s.history.record s.now → E t) :
  Meets (transposeNote delta) s E fun _ => E
  := by
  obtain ⟨message, hrefuses⟩ := (Session.refuses_iff s delta).mpr h
  apply (meets_transposeNote_of_refuses hrefuses).mono
  · rintro t ⟨⟩
  · rintro _ t rfl
    apply hE
    · rfl
    · rfl

/-- A transposition that fits keeps the cursor in the text. -/
theorem meets_transposeNote_of_fits (hs : s.Valid) (h : s.Fits (.edit (.transposeNote delta))) :
  Meets (transposeNote delta) s Session.Valid fun _ => Session.Valid
  := by
  by_cases htransposes : ∃ span name, s.Transposes delta span name
  · obtain ⟨span, name, htransposes⟩ := htransposes
    apply meets_transposeNote htransposes
    intro t hcursor hhistory hlen
    have hfits := h span name htransposes
    apply hs.of_record _ hhistory
    constructor
    · rw [Session.now, hcursor]
      apply hs.now.1
    · rw [Session.text, Buffer.text] at hlen
      dsimp only [Session.now, Buffer.snapshot]
      omega
  · apply meets_transposeNote_of_not htransposes
    intro t hnow hhistory
    apply hs.of_record _ hhistory
    rw [hnow]
    apply hs.now

/-- A transposition after which the cursor is in the text did fit. -/
theorem fits_of_inText_transposeNote (h : InText ((transposeNote delta).after s).now) :
  s.Fits (.edit (.transposeNote delta))
  := by
  intro span name htransposes
  obtain ⟨hcursor, hlen⟩ := (meets_transposeNote htransposes (E := fun t => t.cursor = s.cursor ∧
    t.text.length + span.stop = s.text.length + span.start + name.length)
    fun t hcursor _ hlen => ⟨hcursor, hlen⟩).after
  have hle := h.2
  rw [Session.text, Buffer.text] at hlen
  dsimp only [Session.now, Buffer.snapshot] at hle
  omega

theorem settles_of_fits (hs : s.Valid) (e : Edit) (h : s.Fits (.edit e)) :
  e.action.Meets s Session.Valid fun _ => Session.Valid
  := by
  cases e with
  | insertChar t => apply settles_insertChar t s hs
  | deleteChar => apply settles_deleteChar s hs
  | insertSnippet t => apply settles_edit (settles_putSnippet t) s hs
  | insertTab => apply settles_edit (settles_putSnippet _) s hs
  | insertLineBelow => apply settles_edit settles_openLine s hs
  | deleteLine => apply settles_deleteLine s hs
  | appendReset => apply settles_appendReset s hs
  | insertCheckpoint length => apply settles_insertCheckpoint length s hs
  | insertVoice => apply settles_insertVoice s hs
  | formatText => apply settles_formatText s hs
  | insertNote letter => apply settles_insertNote letter s hs
  | insertRest => apply settles_insertRest s hs
  | deleteNote => apply settles_deleteNote s hs
  | transposeNote delta => apply meets_transposeNote_of_fits hs h
  | record => apply settles_edit settles_pure s hs

end Action

namespace Session

variable {s : Session} {op : Operation} {ops : List Operation}

theorem Fresh.valid (hs : s.Fresh) :
  s.Valid
  := by
  obtain ⟨hcursor, hhistory⟩ := hs
  constructor
  · rw [InText, now, hcursor]
    exact ⟨Int.le_refl 0, Int.natCast_nonneg _⟩
  · rw [hhistory]
    intro m hm
    cases hm
  · rw [hhistory]
    intro m hm
    cases hm

section Runs

variable [Memory]

/-- An operation that fits keeps the cursor in the text and finds its positions. -/
theorem Valid.meets (hs : s.Valid) (hplace : s.PlacesInText op) (hfits : s.Fits op) :
  op.action.Meets s Valid fun _ => Valid
  := by
  cases op with
  | edit e => apply Action.settles_of_fits hs e hfits
  | undo => apply Action.settles_undo s hs
  | redo => apply Action.settles_redo s hs
  | gesture g => apply Action.settles_gesture g s hs
  | place cursor => exact ⟨hplace, hs.past, hs.future⟩

theorem fits_of_inText (h : InText (s.perform op).now) :
  s.Fits op
  := by
  cases op with
  | edit e =>
    cases e with
    | transposeNote delta => apply Action.fits_of_inText_transposeNote h
    | _ => apply trivial
  | _ => apply trivial

/-- Operations that fit keep the cursor in the text. -/
theorem Valid.run (hs : s.Valid) (hplace : s.Along PlacesInText ops) (hfits : s.Along Fits ops) :
  (s.run ops).Valid
  := by
  induction ops generalizing s with
  | nil => apply hs
  | cons op ops ih =>
    apply ih (hs.meets hplace.1 hfits.1).after hplace.2 hfits.2

theorem Along.of_prefix {P : Session → Operation → Prop} {first : List Operation}
    (h : s.Along P ops) (hfirst : first <+: ops) :
  s.Along P first
  := by
  induction first generalizing s ops with
  | nil => apply trivial
  | cons op first ih =>
    obtain ⟨rest, rfl⟩ := hfirst
    exact ⟨h.1, ih h.2 ⟨rest, rfl⟩⟩

/-- If the cursor is in the text all the way, every operation did fit. -/
theorem Valid.along_fits (hs : s.Valid) (hplace : s.Along PlacesInText ops)
    (h : ∀ first, first <+: ops → InText (s.run first).now) :
  s.Along Fits ops
  := by
  induction ops generalizing s with
  | nil => apply trivial
  | cons op ops ih =>
    have hfits : s.Fits op := by
      apply fits_of_inText
      apply h [op]
      exact ⟨ops, rfl⟩
    refine ⟨hfits, ih (hs.meets hplace.1 hfits).after hplace.2 ?_⟩
    intro first hfirst
    apply h (op :: first)
    apply List.prefix_cons_inj op |>.mpr hfirst

theorem Valid.along_findsPositions (hs : s.Valid) (hplace : s.Along PlacesInText ops)
    (hfits : s.Along Fits ops) :
  s.Along FindsPositions ops
  := by
  induction ops generalizing s with
  | nil => apply trivial
  | cons op ops ih =>
    have hmeets := hs.meets hplace.1 hfits.1
    refine ⟨?_, ih hmeets.after hplace.2 hfits.2⟩
    intro e t he
    apply hmeets.isPosition_eq_false he

/-- The cursor stays in the text along a run, which starts with a text or a file and puts the
cursor from outside only at positions of the text, exactly if every transposition in it leaves
enough text.  Then no operation fails because of a position or a line that does not exist. -/
theorem inText_run_iff (hs : s.Fresh) (hplace : s.Along PlacesInText ops) :
  ((∀ first, first <+: ops →
      0 ≤ (s.run first).cursor ∧ (s.run first).cursor ≤ (s.run first).buffer.length) ↔
    s.Along Fits ops) ∧
  (s.Along Fits ops → s.Along FindsPositions ops)
  := by
  refine ⟨⟨?_, ?_⟩, ?_⟩
  · intro h
    apply hs.valid.along_fits hplace h
  · intro h first hfirst
    apply (hs.valid.run (hplace.of_prefix hfirst) (h.of_prefix hfirst)).now
  · apply hs.valid.along_findsPositions hplace

end Runs

/-- A session whose only note has a needless zero in its octave. -/
def paddedNote : Session :=
  ofText { playerCommand := [], previewDirectory := Path.ofText [] } {} Files.empty none
    "(Cn_004 1/4)".toList

attribute [local instance] Memory.sixteenGigabytes in
/-- Typing, putting the cursor onto a note and transposing it. -/
theorem inText_run_paddedNote :
  paddedNote.Fresh ∧
  paddedNote.Along PlacesInText [.edit (.insertChar ['x']), .place 1, .edit (.transposeNote 1)] ∧
  ((∀ first, first <+: [.edit (.insertChar ['x']), .place 1, .edit (.transposeNote 1)] →
      0 ≤ (paddedNote.run first).cursor ∧
        (paddedNote.run first).cursor ≤ (paddedNote.run first).buffer.length) ↔
    paddedNote.Along Fits [.edit (.insertChar ['x']), .place 1, .edit (.transposeNote 1)]) ∧
  (paddedNote.Along Fits [.edit (.insertChar ['x']), .place 1, .edit (.transposeNote 1)] →
    paddedNote.Along FindsPositions
      [.edit (.insertChar ['x']), .place 1, .edit (.transposeNote 1)])
  := by
  have hfresh : paddedNote.Fresh := fresh_ofText _ _ _ _ _
  have hplace : paddedNote.Along PlacesInText
      [.edit (.insertChar ['x']), .place 1, .edit (.transposeNote 1)] := by
    refine ⟨trivial, ⟨?_, ?_⟩, trivial, trivial⟩
    · decide
    · decide +kernel
  exact ⟨hfresh, hplace, inText_run_iff hfresh hplace⟩

theorem insertChar_fails [Memory] (h : s.buffer.length < s.cursor) (t : Text) :
  ∃ e u, EStateM.run (Edit.insertChar t).action s = .error e u ∧ e.isPosition = true
  := by
  have hout : ¬(0 ≤ s.cursor ∧ s.cursor ≤ s.buffer.length) := by omega
  have hinsert : s.buffer.insert s.cursor t = .error (.insertion s.cursor s.buffer.length) :=
    if_neg hout
  refine ⟨.buffer (.insertion s.cursor s.buffer.length),
    { s with history := s.history.record s.now }, ?_, rfl⟩
  simp only [Edit.action, Action.insertChar, Action.edit, Action.insertAt, EStateM.run_bind,
    EStateM.run_modify, EStateM.run_get, hinsert]
  rfl

attribute [local instance] Memory.sixteenGigabytes in
/-- On the end of `(Cn_004 1/4)` a transposition takes the text away from under the cursor, and
typing fails then. -/
theorem not_inText_run_paddedNote :
  paddedNote.Fresh ∧
  paddedNote.Along PlacesInText [.place 11, .edit (.transposeNote 1)] ∧
  (paddedNote.run [.place 11, .edit (.transposeNote 1)]).buffer.length <
    (paddedNote.run [.place 11, .edit (.transposeNote 1)]).cursor ∧
  ∃ e t, EStateM.run (Edit.insertChar ['x']).action
      (paddedNote.run [.place 11, .edit (.transposeNote 1)]) = .error e t ∧ e.isPosition = true
  := by
  have htransposes : (paddedNote.perform (.place 11)).Transposes 1 ⟨1, 7⟩ "Cs_4".toList := by
    refine ⟨"Cn".toList, 4, "Cs".toList, 4, ?_, ?_, ?_, ?_⟩
    · decide +kernel
    · decide +kernel
    · decide +kernel
    · decide +kernel
  have hout : (paddedNote.run [.place 11, .edit (.transposeNote 1)]).buffer.length <
      (paddedNote.run [.place 11, .edit (.transposeNote 1)]).cursor := by
    apply Action.Meets.after
      (Action.meets_transposeNote htransposes (E := fun t => t.buffer.length < t.cursor) _)
    intro t hcursor _ hlen
    have hplaced : (paddedNote.perform (.place 11)).cursor = 11 := rfl
    have htext : (paddedNote.perform (.place 11)).text.length = 12 := by decide +kernel
    have hname : "Cs_4".toList.length = 4 := rfl
    rw [htext, hname] at hlen
    rw [hcursor, hplaced, Buffer.length]
    dsimp only [Session.text] at hlen
    omega
  refine ⟨fresh_ofText _ _ _ _ _, ⟨⟨?_, ?_⟩, trivial, trivial⟩, hout, insertChar_fails hout _⟩
  · decide
  · decide +kernel

end Session

end Tunescript
