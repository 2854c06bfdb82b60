import Mathlib.Data.String.Basic
import Tunescript.Proofs.Score.Concatenation

/-!
# What leads on to a score

Where a text is refused, everything that is expected leads on to a score: the text up to that place,
with anything behind it that an expectation names, is the start of a text that is accepted
(`repairs_of_read`). An obstacle of this kind (`LeadsOn`) is met inside a command, behind its
opening, and where no command opens (`leadsOn_command`), and so behind any commands that could be
read (`leadsOn_commands`).
-/

namespace Tunescript

namespace Expectation

/-- What an expectation names: the given characters, one character of its class, or a space. -/
def Names : Expectation → Text → Prop
  | literal l, x => x = l
  | digit, x => ∃ c, x = [c] ∧ c.isDigit
  | timeSignature, x | noteLength, x => ∃ c, x = [c] ∧ Score.isFractionChar c
  | voiceName, x | noteName, x => ∃ c, x = [c] ∧ Score.isNameChar c
  | whitespace, x => x = [' ']

/-- The expectations stand in the order of their labels, each label once. -/
def InOrder (es : List Expectation) : Prop := es.Pairwise fun e f => e.label < f.label

variable {e f : Expectation} {es : List Expectation}

theorem eq_of_names {l x : Text} (h : (literal l).Names x) :
  x = l
  := h

/-- Every expectation names something. -/
theorem exists_names (e : Expectation) :
  ∃ x, e.Names x
  := by
  cases e with
  | literal l => exact ⟨l, rfl⟩
  | digit => exact ⟨['1'], '1', rfl, rfl⟩
  | timeSignature => exact ⟨['1'], '1', rfl, rfl⟩
  | noteLength => exact ⟨['1'], '1', rfl, rfl⟩
  | voiceName => exact ⟨['a'], 'a', rfl, rfl⟩
  | noteName => exact ⟨['a'], 'a', rfl, rfl⟩
  | whitespace => exact ⟨[' '], rfl⟩

theorem mem_of_mem_insert (h : f ∈ insert e es) :
  f = e ∨ f ∈ es
  := by
  induction es with
  | nil => exact .inl (List.mem_singleton.mp h)
  | cons g gs ih =>
    rw [insert] at h
    split at h
    · apply List.mem_cons.mp h
    · split at h
      · exact .inr h
      · obtain rfl | h := List.mem_cons.mp h
        · exact .inr List.mem_cons_self
        · apply (ih h).imp_right (List.mem_cons_of_mem _)

theorem insert_ne_nil (e : Expectation) (es : List Expectation) :
  insert e es ≠ []
  := by
  cases es with
  | nil => apply List.cons_ne_nil
  | cons g gs =>
    rw [insert]
    split
    · apply List.cons_ne_nil
    · split
      · apply List.cons_ne_nil
      · apply List.cons_ne_nil

theorem InOrder.insert (h : InOrder es) (e : Expectation) :
  InOrder (Expectation.insert e es)
  := by
  induction es with
  | nil => apply List.pairwise_singleton
  | cons g gs ih =>
    obtain ⟨hg, hgs⟩ := List.pairwise_cons.mp h
    rw [Expectation.insert]
    split
    · rename_i hlt
      apply List.pairwise_cons.mpr ⟨_, h⟩
      intro f hf
      obtain rfl | hf := List.mem_cons.mp hf
      · apply hlt
      · apply hlt.trans (hg f hf)
    · rename_i hnot
      split
      · apply h
      · rename_i hne
        apply List.pairwise_cons.mpr ⟨_, ih hgs⟩
        intro f hf
        obtain rfl | hf := mem_of_mem_insert hf
        · apply (lt_or_gt_of_ne hne).resolve_left hnot
        · apply hg f hf

/-- Put in order, the expectations are all among the given ones. -/
theorem mem_of_mem_inOrder (h : e ∈ inOrder es) :
  e ∈ es
  := by
  induction es with
  | nil => cases h
  | cons f fs ih =>
    obtain rfl | h := mem_of_mem_insert h
    · apply List.mem_cons_self
    · apply List.mem_cons_of_mem _ (ih h)

theorem inOrder_inOrder (es : List Expectation) :
  InOrder (inOrder es)
  := by
  induction es with
  | nil => apply List.Pairwise.nil
  | cons f fs ih => apply ih.insert

theorem inOrder_ne_nil (h : es ≠ []) :
  inOrder es ≠ []
  := by
  obtain ⟨f, fs, rfl⟩ := List.exists_cons_of_ne_nil h
  apply insert_ne_nil

end Expectation

namespace Score

section Obstacles

variable {good good' : Text → Prop} {t : Text} {o a b : Obstacle}

/-- The text up to an obstacle, with anything behind it that the obstacle expects, is the start of a
good text. -/
def LeadsOn (good : Text → Prop) (t : Text) (o : Obstacle) : Prop :=
  ∃ p, t = p ++ o.rest ∧ o.expected ≠ [] ∧
    ∀ e ∈ o.expected, ∀ x, e.Names x → ∃ u, good (p ++ (x ++ u))

theorem leadsOn_single {e : Expectation} {p r : Text} (ht : t = p ++ r)
    (h : ∀ x, e.Names x → ∃ u, good (p ++ (x ++ u))) :
  LeadsOn good t ⟨r, [e]⟩
  := ⟨p, ht, List.cons_ne_nil _ _, List.forall_mem_singleton.mpr h⟩

theorem LeadsOn.append (h : LeadsOn good t o) {q : Text} (hgood : ∀ u, good u → good' (q ++ u)) :
  LeadsOn good' (q ++ t) o
  := by
  obtain ⟨p, rfl, hne, h⟩ := h
  refine ⟨q ++ p, by rw [List.append_assoc], hne, ?_⟩
  intro e he x hx
  obtain ⟨u, hu⟩ := h e he x hx
  use u
  rw [List.append_assoc]
  apply hgood _ hu

/-- Of two obstacles at one place, both lead on. -/
theorem LeadsOn.further (ha : LeadsOn good t a) (hb : LeadsOn good t b) :
  LeadsOn good t (a.further b)
  := by
  rw [Obstacle.further]
  split
  · apply ha
  · split
    · apply hb
    · obtain ⟨p, rfl, hne, ha⟩ := ha
      obtain ⟨q, hq, -, hb⟩ := hb
      have hlength : a.rest.length = b.rest.length := by omega
      obtain ⟨rfl, -⟩ := List.append_inj' hq hlength
      refine ⟨p, rfl, List.append_ne_nil_of_left_ne_nil hne _, ?_⟩
      intro e he
      obtain he | he := List.mem_append.mp he
      · apply ha e he
      · apply hb e he

end Obstacles

section Commands

variable {t : Text} {o : Obstacle}

theorem some1_eq_error {p : Char → Bool} {e : Expectation} (h : some1 p e t = .error o) :
  o = ⟨t, [e]⟩
  := by
  rw [some1] at h
  split at h
  · apply (Except.error.inj h).symm
  · cases h

theorem literal_eq_error {l : Text} (h : literal l t = .error o) :
  o = ⟨t, [.literal l]⟩
  := by
  rw [literal] at h
  split at h
  · cases h
  · apply (Except.error.inj h).symm

theorem bind_eq_error {ε α β : Type} {x : Except ε α} {f : α → Except ε β} {e : ε}
    (h : x >>= f = .error e) :
  x = .error e ∨ ∃ a, x = .ok a ∧ f a = .error e
  := by
  cases x with
  | error e' => exact .inl (congrArg Except.error (Except.error.inj h))
  | ok a => exact .inr ⟨a, rfl, h⟩

/-- The text spells a command behind the opening, whatever filler stands in front and whatever
follows. -/
def Completes (opening : Char) (t : Text) : Prop :=
  ∃ c, ∀ w r, Filler w → Spells r (w ++ opening :: t) c

theorem completes_of_parts {opening : Char} {parts : List Text} {c : Command}
    (h : ∀ w r, Filler w → Spells r (w :: [opening] :: parts).flatten c) (ht : t = parts.flatten) :
  Completes opening t
  := by
  use c
  intro w r hw
  simpa [ht] using h w r hw

theorem leadsOn_tempo (h : tempo t = .error o) :
  LeadsOn (Completes '[') t o
  := by
  obtain ⟨w₂, hw₂, ht⟩ := exists_filler t
  -- The first part that is missing is the obstacle; behind it the shortest rest completes the
  -- command.
  obtain hnumber | ⟨⟨number, t₁⟩, hnumber, h⟩ := bind_eq_error h
  · obtain rfl := some1_eq_error hnumber
    apply leadsOn_single ht
    rintro x ⟨d, rfl, hd⟩
    use "_bpm]".toList
    apply completes_of_parts fun w r hw => Spells.tempo hw hw₂ (run_singleton hd) filler_nil
      filler_nil
    simp
  obtain ⟨hnumber, hskip⟩ := eq_append_of_some1 hnumber
  rw [hskip] at ht
  obtain hsuffix | ⟨t₂, hsuffix, h⟩ := bind_eq_error h
  · obtain rfl := literal_eq_error hsuffix
    apply leadsOn_single (p := w₂ ++ number) (by simpa using ht)
    rintro x rfl
    use "]".toList
    apply completes_of_parts fun w r hw => Spells.tempo hw hw₂ hnumber filler_nil filler_nil
    simp [tempoSuffix]
  obtain ⟨w₃, hw₃, ht₂⟩ := exists_filler t₂
  rw [eq_append_of_literal hsuffix, ht₂] at ht
  obtain hclose | ⟨t₃, -, h⟩ := bind_eq_error h
  · obtain rfl := literal_eq_error hclose
    apply leadsOn_single (p := [w₂, number, tempoSuffix, w₃].flatten) (by simpa using ht)
    rintro x rfl
    use []
    apply completes_of_parts fun w r hw => Spells.tempo hw hw₂ hnumber hw₃ filler_nil
    simp [tempoSuffix]
  · cases h

theorem leadsOn_time (h : time t = .error o) :
  LeadsOn (Completes '[') t o
  := by
  obtain ⟨w₂, hw₂, ht⟩ := exists_filler t
  obtain hfraction | ⟨⟨fraction, t₁⟩, hfraction, h⟩ := bind_eq_error h
  · obtain rfl := some1_eq_error hfraction
    apply leadsOn_single ht
    rintro x ⟨d, rfl, hd⟩
    use "]".toList
    apply completes_of_parts fun w r hw => Spells.time hw hw₂ (run_singleton hd) filler_nil
      filler_nil
    simp
  obtain ⟨hfraction, hskip⟩ := eq_append_of_some1 hfraction
  obtain ⟨w₃, hw₃, ht₁⟩ := exists_filler t₁
  rw [hskip, ht₁] at ht
  obtain hclose | ⟨t₂, -, h⟩ := bind_eq_error h
  · obtain rfl := literal_eq_error hclose
    apply leadsOn_single (p := [w₂, fraction, w₃].flatten) (by simpa using ht)
    rintro x rfl
    use []
    apply completes_of_parts fun w r hw => Spells.time hw hw₂ hfraction hw₃ filler_nil
    simp
  · cases h

theorem leadsOn_bracket (h : bracket t = .error o) :
  LeadsOn (Completes '[') t o
  := by
  rw [bracket] at h
  split at h
  · cases h
  · rename_i a htempo
    split at h
    · cases h
    · rename_i b htime
      cases h
      apply (leadsOn_tempo htempo).further (leadsOn_time htime)

theorem leadsOn_voice (h : voice t = .error o) :
  LeadsOn (Completes '%') t o
  := by
  obtain ⟨w₂, hw₂, ht⟩ := exists_filler t
  obtain hname | ⟨⟨name, t₁⟩, -, h⟩ := bind_eq_error h
  · obtain rfl := some1_eq_error hname
    apply leadsOn_single ht
    rintro x ⟨d, rfl, hd⟩
    use []
    apply completes_of_parts fun w r hw => Spells.voice hw hw₂ (run_singleton hd) filler_nil
    simp
  · cases h

theorem leadsOn_note (h : note t = .error o) :
  LeadsOn (Completes '(') t o
  := by
  have hone : Run isFractionChar ['1'] := run_singleton rfl
  obtain ⟨w₂, hw₂, ht⟩ := exists_filler t
  obtain hname | ⟨⟨name, t₁⟩, hname, h⟩ := bind_eq_error h
  · obtain rfl := some1_eq_error hname
    apply leadsOn_single ht
    rintro x ⟨d, rfl, hd⟩
    use " 1)".toList
    apply completes_of_parts fun w r hw => Spells.note hw hw₂ (run_singleton hd) run_space
      hone dots_nil
      filler_nil dots_nil filler_nil
    simp
  obtain ⟨hname, hskip⟩ := eq_append_of_some1 hname
  rw [hskip] at ht
  obtain hgap | ⟨⟨gap, t₂⟩, hgap, h⟩ := bind_eq_error h
  · obtain rfl := some1_eq_error hgap
    apply leadsOn_single (p := w₂ ++ name) (by simpa using ht)
    rintro x rfl
    use "1)".toList
    apply completes_of_parts fun w r hw => Spells.note hw hw₂ hname run_space hone dots_nil
      filler_nil
      dots_nil filler_nil
    simp
  obtain ⟨hgap, hgapped⟩ := eq_append_of_some1 hgap
  rw [hgapped] at ht
  obtain hlength | ⟨⟨length, t₃⟩, hlength, h⟩ := bind_eq_error h
  · obtain rfl := some1_eq_error hlength
    apply leadsOn_single (p := [w₂, name, gap].flatten) (by simpa using ht)
    rintro x ⟨d, rfl, hd⟩
    use ")".toList
    apply completes_of_parts fun w r hw => Spells.note hw hw₂ hname hgap (run_singleton hd) dots_nil
      filler_nil dots_nil filler_nil
    simp
  obtain ⟨hlength, hmeasured⟩ := eq_append_of_some1 hlength
  obtain ⟨w₄, hw₄, ht₃⟩ := exists_filler (t₃.dropWhile (· == dot))
  rw [hmeasured, ← List.takeWhile_append_dropWhile (p := (· == dot)) (l := t₃), ht₃] at ht
  obtain hclose | ⟨t₄, -, h⟩ := bind_eq_error h
  · obtain rfl := literal_eq_error hclose
    apply leadsOn_single (p := [w₂, name, gap, length, t₃.takeWhile (· == dot), w₄].flatten)
      (by simpa using ht)
    rintro x rfl
    use []
    apply completes_of_parts fun w r hw => Spells.note hw hw₂ hname hgap hlength
      (eq_plus_of_mem_takeWhile t₃) hw₄ dots_nil filler_nil
    simp
  · cases h

/-- The text spells a command, whatever follows. -/
def IsCommand (t : Text) : Prop := ∃ c, ∀ r, Spells r t c

theorem isCommand_of_parts {parts : List Text} {c : Command} (h : ∀ r, Spells r parts.flatten c)
    (ht : t = parts.flatten) :
  IsCommand t
  := by
  use c
  intro r
  rw [ht]
  apply h

/-- Every opening leads on to a command. -/
theorem exists_isCommand {e : Expectation} (he : e ∈ openings) {x : Text} (hx : e.Names x)
    {w : Text} (hw : Filler w) :
  ∃ u, IsCommand (w ++ (x ++ u))
  := by
  have hline : '\n' ∉ ([] : Text) := List.not_mem_nil
  have hone : Run isFractionChar ['1'] := run_singleton rfl
  have hname : Run isNameChar ['a'] := run_singleton rfl
  have hstar : Run (· == '*') ['*'] := run_singleton rfl
  simp only [openings, List.map_cons, List.map_nil, List.mem_cons, List.not_mem_nil, or_false] at he
  obtain rfl | rfl | rfl | rfl | rfl | rfl | rfl := he
  · use ['\n']
    apply isCommand_of_parts fun r => Spells.comment hw hline (.inl rfl)
    simp [Expectation.eq_of_names hx]
  · use "1]".toList
    apply isCommand_of_parts fun r => Spells.time hw filler_nil hone filler_nil filler_nil
    simp [Expectation.eq_of_names hx]
  · use []
    apply isCommand_of_parts fun r => Spells.checkpoint hw hstar filler_nil
    simp [Expectation.eq_of_names hx]
  · use ['a']
    apply isCommand_of_parts fun r => Spells.voice hw filler_nil hname filler_nil
    simp [Expectation.eq_of_names hx]
  · use []
    apply isCommand_of_parts fun r => Spells.measure hw filler_nil
    simp [Expectation.eq_of_names hx]
  · use ['\n']
    apply isCommand_of_parts fun r => Spells.reset hw hline (.inl rfl)
    simp [Expectation.eq_of_names hx]
  · use "a 1)".toList
    apply isCommand_of_parts fun r => Spells.note hw filler_nil hname run_space hone dots_nil
      filler_nil dots_nil
      filler_nil
    simp [Expectation.eq_of_names hx]

theorem leadsOn_command (h : command t = .error o) :
  LeadsOn IsCommand t o
  := by
  obtain ⟨w, hw, ht⟩ := exists_filler t
  have hopening {opening : Char} {u : Text} (hu : skip t = opening :: u)
      (hlead : LeadsOn (Completes opening) u o) : LeadsOn IsCommand t o := by
    have hsplit : t = (w ++ [opening]) ++ u := by
      rw [hu] at ht
      simpa using ht
    rw [hsplit]
    apply hlead.append
    rintro v ⟨c, hc⟩
    use c
    intro r
    simpa using hc w r hw
  rw [command] at h
  split at h
  · cases h
  · rename_i u hu
    apply hopening hu (leadsOn_bracket h)
  · cases h
  · rename_i u hu
    apply hopening hu (leadsOn_voice h)
  · cases h
  · cases h
  · rename_i u hu
    apply hopening hu (leadsOn_note h)
  · cases h
    refine ⟨w, ht, List.cons_ne_nil _ _, ?_⟩
    intro e he x hx
    apply exists_isCommand he hx hw

/-- Where commands end too early, there is an obstacle behind those that could be read. -/
theorem commands_eq_error (h : commands t = .error o) :
  command t = .error o ∨ ∃ c r, command t = .ok (c, r) ∧ commands r = .error o
  := by
  cases ht : command t with
  | ok q =>
    obtain ⟨c, r⟩ := q
    rw [commands_of_ok ht] at h
    cases hr : commands r with
    | ok cs =>
      rw [hr] at h
      cases h
    | error o' =>
      rw [hr] at h
      cases h
      exact .inr ⟨c, r, rfl, hr⟩
  | error o' =>
    rw [commands_of_error ht] at h
    split at h
    · cases h
    · exact .inl (congrArg Except.error (Except.error.inj h))

/-- Behind every command that is read, what is expected leads on to a score. -/
theorem leadsOn_commands (h : commands t = .error o) :
  LeadsOn (fun u => ∃ ps, Spelled ps u) t o
  := by
  induction hsize : t.length using Nat.strongRecOn generalizing t with
  | _ size ih =>
    obtain hcommand | ⟨c, r, hcommand, hrest⟩ := commands_eq_error h
    · have hgood : ∀ u, IsCommand u → ∃ ps, Spelled ps ([] ++ u) := by
        rintro u ⟨c, hc⟩
        use [⟨u, c⟩]
        simpa using Spelled.phrase (hc []) (.filler filler_nil)
      exact LeadsOn.append (q := []) (leadsOn_command hcommand) hgood
    · have hlt := length_lt_of_command hcommand
      obtain ⟨p, rfl, hp⟩ := spells_of_command hcommand
      have hne : r ≠ [] := by
        rintro rfl
        rw [commands_nil rfl] at hrest
        cases hrest
      apply (ih _ (hsize ▸ hlt) hrest rfl).append
      rintro u ⟨ps, hps⟩
      exact ⟨⟨p, c⟩ :: ps, .phrase (hp.in_front_of (absurd · hne) u) hps⟩

end Commands

section Errors

variable {t : Text} {e : ParseError}

/-- The column of a place counts the characters behind the last line end. -/
theorem exists_lastLine (t : Text) :
  ∃ before line, t = before ++ line ∧ (before = [] ∨ Text.endsLine before) ∧ '\n' ∉ line ∧
    (t.reverse.takeWhile (· != '\n')).length = line.length
  := by
  refine ⟨(t.reverse.dropWhile (· != '\n')).reverse,
    (t.reverse.takeWhile (· != '\n')).reverse, ?_, ?_, ?_, ?_⟩
  · rw [← List.reverse_append, List.takeWhile_append_dropWhile, List.reverse_reverse]
  · cases hrest : t.reverse.dropWhile (· != '\n') with
    | nil => exact .inl rfl
    | cons c u =>
      have hc := List.head?_dropWhile_not (· != '\n') t.reverse
      rw [hrest] at hc
      obtain rfl : c = '\n' := by simpa using hc
      apply Or.inr
      rw [List.reverse_cons]
      apply Text.endsLine_iff.mpr ⟨_, rfl⟩
  · intro hmem
    have hend := List.mem_takeWhile_imp (List.mem_reverse.mp hmem)
    cases hend
  · rw [List.length_reverse]

/-- A text that is refused is refused at a place in it, which the line and the column tell; the
expectations there are in order, and each of them names texts, all of which lead on to a text that
is accepted. -/
theorem repairs_of_read (h : read t = .error e) :
  e.offset ≤ t.length ∧
    e.line = (t.take e.offset).count '\n' + 1 ∧
    (∃ before line, t.take e.offset = before ++ line ∧ (before = [] ∨ Text.endsLine before) ∧
      '\n' ∉ line ∧ e.column = line.length + 1) ∧
    e.expected ≠ [] ∧
    (e.expected.map Expectation.label).Pairwise (· < ·) ∧
    ∀ x ∈ e.expected, (∃ named, x.Names named) ∧
      ∀ named, x.Names named → ∃ rest cs, read (t.take e.offset ++ named ++ rest) = .ok cs
  := by
  obtain ⟨o, ho, rfl⟩ := read_eq_error h
  obtain ⟨p, rfl, hne, hlead⟩ := leadsOn_commands ho
  have hoffset : (ParseError.ofObstacle (p ++ o.rest) o).offset = p.length := by
    rw [ParseError.ofObstacle, List.length_append, Nat.add_sub_cancel]
  have htake : (p ++ o.rest).take (ParseError.ofObstacle (p ++ o.rest) o).offset = p := by
    rw [hoffset, List.take_left]
  obtain ⟨before, line, hsplit, hbefore, hline, hlength⟩ := exists_lastLine p
  rw [htake]
  refine ⟨?_, ?_, ⟨before, line, hsplit, hbefore, hline, ?_⟩, ?_, ?_, ?_⟩
  · rw [hoffset, List.length_append]
    apply Nat.le_add_right
  · apply congrArg (List.count '\n' · + 1) htake
  · rw [← hlength]
    apply congrArg (fun u : Text => (u.reverse.takeWhile (· != '\n')).length + 1) htake
  · apply Expectation.inOrder_ne_nil hne
  · apply List.pairwise_map.mpr (Expectation.inOrder_inOrder _)
  · intro x hx
    use x.exists_names
    intro named hnamed
    obtain ⟨rest, ps, hps⟩ := hlead x (Expectation.mem_of_mem_inOrder hx) named hnamed
    obtain ⟨cs, hcs⟩ := (commands_of_spelled hps).1
    rw [← List.append_assoc] at hcs
    exact ⟨rest, cs, read_eq_ok.mpr hcs⟩

/-- Behind the number in an open bracket, the second line may go on as a tempo or as a time
signature. -/
theorem repairs_of_read_openBracket :
  let t : Text := "~ a\n| [60".toList
  let e : ParseError := ⟨none, 9, 2, 6, [.literal "]".toList, .literal "_bpm".toList]⟩
  read t = .error e ∧
    (e.expected.map Expectation.label).Pairwise (· < ·) ∧
    (∃ rest cs, read (t.take e.offset ++ "]".toList ++ rest) = .ok cs) ∧
    ∃ rest cs, read (t.take e.offset ++ "_bpm".toList ++ rest) = .ok cs
  := by
  intro t e
  have hread : read t = .error e := by decide +kernel
  obtain ⟨-, -, -, -, hsorted, hlead⟩ := repairs_of_read hread
  have hclose := (hlead (.literal "]".toList) (by decide)).2 _ rfl
  have hsuffix := (hlead (.literal "_bpm".toList) (by decide)).2 _ rfl
  exact ⟨hread, hsorted, hclose, hsuffix⟩

end Errors

end Score

end Tunescript
