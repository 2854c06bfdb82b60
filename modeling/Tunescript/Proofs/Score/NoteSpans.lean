import Tunescript.Proofs.Score.Acceptance
import Tunescript.Proofs.Score.Spans
import Tunescript.Proofs.Score.Tokens

/-!
# The notes that are found are note tokens

A note at a cursor is looked for among the characters around it, while the grammar tells where the
note tokens of a score are.  Between the parentheses of a note token stands no other parenthesis
(`NoteToken.not_mem_inside`), and no dot follows its outer dots, so that at each of its characters
from one parenthesis to the other exactly the token is found (`noteAt?_token`).  Its pitch is what
stands in front of its first space, which is its name if no filler is in front of the name and a
space behind it (`addresses_of_tokens`).
-/

namespace Tunescript.Score

/-- A note as it stands in a score: a name and a fraction in parentheses, with dots in front of the
closing one and behind it. -/
structure NoteToken where
  /-- The filler in front of the name. -/
  lead : Text
  /-- The name. -/
  name : Text
  /-- The filler between the name and the fraction. -/
  gap : Text
  /-- The fraction. -/
  fraction : Text
  /-- The dots in front of the closing parenthesis. -/
  inner : Text
  /-- The filler in front of the closing parenthesis. -/
  tail : Text
  /-- The dots behind the closing parenthesis. -/
  outer : Text
  /-- In front of the name stands filler. -/
  filler_lead : Filler lead
  /-- The name has characters of a name. -/
  run_name : Run isNameChar name
  /-- Filler follows the name. -/
  run_gap : Run isFiller gap
  /-- The fraction has characters of a fraction. -/
  run_fraction : Run isFractionChar fraction
  /-- Dots may follow the fraction. -/
  dots_inner : ∀ c ∈ inner, c = '+'
  /-- Filler may follow the dots. -/
  filler_tail : Filler tail
  /-- Dots may follow the closing parenthesis. -/
  dots_outer : ∀ c ∈ outer, c = '+'

namespace NoteToken

variable (k : NoteToken)

/-- What stands in the parentheses. -/
def inside : Text := [k.lead, k.name, k.gap, k.fraction, k.inner, k.tail].flatten

/-- The characters from one parenthesis to the other. -/
def body : Text := '(' :: (k.inside ++ [')'])

/-- The note with the dots behind it. -/
def text : Text := k.body ++ k.outer

/-- Only filler, the characters of names and fractions and dots stand in the parentheses. -/
theorem not_mem_inside {c : Char} (hfiller : isFiller c = false) (hname : isNameChar c = false)
    (hfraction : isFractionChar c = false) (hdot : c ≠ '+') :
  c ∉ k.inside
  := by
  have hinner : c ∉ k.inner := not_mem_of_dots k.dots_inner hdot
  simp [inside, k.filler_lead.not_mem hfiller, k.run_name.not_mem hname, k.run_gap.not_mem hfiller,
    k.run_fraction.not_mem hfraction, hinner, k.filler_tail.not_mem hfiller]

theorem length_body :
  k.body.length = k.inside.length + 2
  := by
  simp [body]

end NoteToken

section Scan

variable {a r u : Text} {limit d : Nat}

/-- The opening is found behind characters that are no parentheses. -/
theorem openingDistance?_append (hu : '(' ∉ u ∧ ')' ∉ u) (first : Bool) (hlimit : u.length < limit)
    (v : Text) :
  openingDistance? limit first (u ++ '(' :: v) = some u.length
  := by
  induction u generalizing limit first with
  | nil =>
    obtain ⟨n, rfl⟩ := Nat.exists_eq_succ_of_ne_zero (Nat.ne_zero_of_lt hlimit)
    rfl
  | cons c u ih =>
    obtain ⟨n, rfl⟩ := Nat.exists_eq_succ_of_ne_zero (Nat.ne_zero_of_lt hlimit)
    simp only [List.mem_cons, not_or, List.length_cons] at hu hlimit
    have hrest := ih ⟨hu.1.2, hu.2.2⟩ false (Nat.lt_of_succ_lt_succ hlimit)
    have hopening : c ≠ noteOpening := Ne.symm hu.1.1
    have hclosing : c ≠ noteClosing := Ne.symm hu.2.1
    rw [List.cons_append, openingDistance?, if_neg hopening, if_neg fun h => hclosing h.1, hrest]
    rfl

/-- The closing of the note itself is no obstacle. -/
theorem openingDistance?_closing (hu : '(' ∉ u ∧ ')' ∉ u) (hlimit : u.length + 1 < limit)
    (v : Text) :
  openingDistance? limit true (')' :: (u ++ '(' :: v)) = some (u.length + 1)
  := by
  obtain ⟨n, rfl⟩ := Nat.exists_eq_succ_of_ne_zero (Nat.ne_zero_of_lt hlimit)
  have hrest := openingDistance?_append hu false (Nat.lt_of_succ_lt_succ hlimit) v
  rw [openingDistance?, if_neg (by decide), if_neg (by simp), hrest]
  rfl

variable (k : NoteToken)

/-- From each character from one parenthesis to the other the opening is found. -/
theorem openingDistance?_token (hlimit : k.body.length ≤ scanLimit) (hd : d < k.body.length)
    (r : Text) :
  openingDistance? scanLimit true ((a ++ (k.body ++ r)).take (a.length + d + 1)).reverse = some d
  := by
  have hinside {u : Text} (hu : u ⊆ k.inside) : '(' ∉ u ∧ ')' ∉ u :=
    ⟨fun hmem => k.not_mem_inside rfl rfl rfl (by decide) (hu hmem),
      fun hmem => k.not_mem_inside rfl rfl rfl (by decide) (hu hmem)⟩
  rw [k.length_body] at hlimit hd
  have htake : (a ++ (k.body ++ r)).take (a.length + d + 1) =
      a ++ '(' :: (k.inside ++ [')']).take d := by
    rw [Nat.add_assoc, List.take_length_add_append, NoteToken.body, List.cons_append,
      List.take_succ_cons, List.take_append_of_le_length]
    simp
    omega
  rw [htake, List.reverse_append, List.reverse_cons, List.append_assoc, List.singleton_append]
  obtain hle | heq : d ≤ k.inside.length ∨ d = k.inside.length + 1 := by omega
  · have hlength : (k.inside.take d).reverse.length = d := by
      simp [hle]
    rw [List.take_append_of_le_length hle, openingDistance?_append _ true (by omega), hlength]
    apply hinside
    simpa using List.take_subset d k.inside
  · have hwhole : (k.inside ++ [')']).take d = k.inside ++ [')'] := by
      apply List.take_of_length_le
      simp [heq]
    rw [hwhole, List.reverse_append, List.reverse_singleton, List.singleton_append,
      List.cons_append, openingDistance?_closing _ (by simp; omega), List.length_reverse, heq]
    apply hinside
    simp

/-- From the opening the whole token is found, if no dot follows it. -/
theorem noteFrom?_token (hlimit : k.body.length ≤ scanLimit) (hr : Stops (· == dot) r) :
  noteFrom? (a ++ (k.text ++ r)) a.length = some ⟨a.length, a.length + k.text.length⟩
  := by
  have hindex : Text.indexOf? noteClosing ((k.text ++ r).take scanLimit) =
      some (k.inside.length + 1) := by
    have hnot : ')' ∉ '(' :: k.inside := by
      have hclosing : ')' ∉ k.inside := k.not_mem_inside rfl rfl rfl (by decide)
      simpa using hclosing
    rw [NoteToken.text, List.append_assoc, List.take_append, List.take_of_length_le hlimit,
      NoteToken.body]
    have hsplit (v : Text) : '(' :: (k.inside ++ [')']) ++ v = ('(' :: k.inside) ++ ')' :: v := by
      simp
    rw [hsplit]
    apply Text.indexOf?_append hnot
  have hdots : ((a ++ (k.text ++ r)).drop (a.length + k.body.length)).takeWhile (· == '+') =
      k.outer := by
    rw [List.drop_length_add_append, NoteToken.text, List.append_assoc, List.drop_left]
    apply (takeWhile_exact _ hr).1
    intro c hc
    rw [k.dots_outer c hc]
    rfl
  have hstop : a.length + (k.inside.length + 1) + 1 = a.length + k.body.length := by
    rw [k.length_body]
    omega
  rw [noteFrom?, List.drop_left, hindex]
  dsimp only
  rw [hstop, hdots, NoteToken.text, List.length_append]
  simp only [Nat.add_assoc]

theorem noteAt?_token (hlimit : k.body.length ≤ scanLimit) (hr : Stops (· == dot) r)
    (hd : d < k.body.length) :
  noteAt? (a ++ (k.text ++ r)) (a.length + d : Nat) = some ⟨a.length, a.length + k.text.length⟩
  := by
  have htext : k.text.length = k.body.length + k.outer.length := List.length_append
  have hopening := openingDistance?_token (a := a) k hlimit hd (k.outer ++ r)
  rw [← List.append_assoc k.body, ← NoteToken.text] at hopening
  rw [noteAt?, if_pos]
  · dsimp only
    rw [Int.toNat_natCast, hopening]
    dsimp only
    rw [Nat.add_sub_cancel, noteFrom?_token k hlimit hr, Option.filter_some, if_pos]
    simp
    omega
  · simp
    omega

/-- The pitch that is found is what stands in front of the first space in the parentheses. -/
theorem pitchAt?_token (hlimit : k.body.length ≤ scanLimit) (hr : Stops (· == dot) r)
    (hd : d < k.body.length) :
  pitchAt? (a ++ (k.text ++ r)) (a.length + d : Nat) =
    (Text.indexOf? ' ' (k.inside ++ ')' :: k.outer)).map fun i => ⟨a.length + 1, a.length + 1 + i⟩
  := by
  have hbehind : ((a ++ (k.text ++ r)).take (a.length + k.text.length)).drop (a.length + 1) =
      k.inside ++ ')' :: k.outer := by
    rw [List.take_length_add_append, List.take_left, List.drop_length_add_append, NoteToken.text,
      NoteToken.body]
    simp
  rw [pitchAt?, noteAt?_token k hlimit hr hd]
  dsimp only
  rw [hbehind]

theorem space_not_mem_behind :
  ' ' ∉ ')' :: k.outer
  := by
  intro hmem
  obtain h | h := List.mem_cons.mp hmem
  · cases h
  · cases k.dots_outer ' ' h

/-- The name of a token is what stands in front of the first space in the parentheses exactly if it
is the first thing in them and the filler behind it starts with a space. -/
theorem indexOf?_space_name_iff :
  (k.lead = [] ∧ Text.indexOf? ' ' (k.inside ++ ')' :: k.outer) = some k.name.length) ↔
    k.lead = [] ∧ k.gap.head? = some ' '
  := by
  apply and_congr_right
  intro hlead
  obtain ⟨c, gap, hgap⟩ := List.exists_cons_of_ne_nil k.run_gap.1
  have hinside : k.inside ++ ')' :: k.outer =
      k.name ++ c :: (gap ++ (k.fraction ++ (k.inner ++ (k.tail ++ ')' :: k.outer)))) := by
    simp [NoteToken.inside, hlead, hgap]
  rw [hinside, hgap, List.head?_cons, Option.some_inj]
  constructor
  · intro hindex
    obtain ⟨hlt, hspace, -⟩ := List.findIdx?_eq_some_iff_getElem.mp hindex
    simpa using hspace
  · rintro rfl
    apply Text.indexOf?_append (k.run_name.not_mem rfl)

end Scan

section Tokens

variable {t p r : Text} {c : Command} {ps qs : List Phrase}

/-- The token stands in the score at a position: it is a phrase of the score but for filler around
it. -/
def NoteToken.StandsAt (k : NoteToken) (t : Text) (start : Nat) : Prop :=
  ∃ ps w w' c qs, Spelled (ps ++ ⟨w ++ (k.text ++ w'), c⟩ :: qs) t ∧ Filler w ∧ Filler w' ∧
    start = (ps.map Phrase.text).flatten.length + w.length

/-- A phrase that starts with a parenthesis is a token but for filler around it. -/
theorem Spells.exists_token (h : Spells r p c) (htoken : Phrase.IsToken ⟨p, c⟩) :
  ∃ (k : NoteToken) (w w' : Text), p = w ++ (k.text ++ w') ∧ Filler w ∧ Filler w'
  := by
  cases h with
  | comment hw => cases Phrase.not_isToken hw rfl (by decide) htoken
  | tempo hw => cases Phrase.not_isToken hw rfl (by decide) htoken
  | time hw => cases Phrase.not_isToken hw rfl (by decide) htoken
  | @checkpoint w₁ stars w₂ hw hstars =>
    obtain _ | ⟨x, stars⟩ := stars
    · cases hstars.1 rfl
    · obtain rfl : x = '*' := eq_of_beq (hstars.2 x List.mem_cons_self)
      cases Phrase.not_isToken hw rfl (by decide) htoken
  | voice hw => cases Phrase.not_isToken hw rfl (by decide) htoken
  | measure hw => cases Phrase.not_isToken hw rfl (by decide) htoken
  | reset hw => cases Phrase.not_isToken hw rfl (by decide) htoken
  | note hw₁ hw₂ hname hw₃ hfraction hinner hw₄ houter hw₅ =>
    refine ⟨⟨_, _, _, _, _, _, _, hw₂, hname, hw₃, hfraction, hinner, hw₄, houter⟩, _, _, ?_,
      hw₁, hw₅⟩
    simp [NoteToken.text, NoteToken.body, NoteToken.inside]

/-- A token by itself spells the note. -/
theorem NoteToken.spells (k : NoteToken) (r : Text) :
  Spells r k.text ⟨Verb.ofWord k.name, k.fraction ++ k.inner ++ k.outer⟩
  := by
  have hspells : Spells r _ _ := Spells.note filler_nil k.filler_lead k.run_name k.run_gap
    k.run_fraction
    k.dots_inner k.filler_tail k.dots_outer filler_nil
  simpa [NoteToken.text, NoteToken.body, NoteToken.inside] using hspells

/-- A token is a score in which it stands at the start. -/
theorem NoteToken.standsAt_self (k : NoteToken) :
  k.StandsAt k.text 0
  := by
  have hspelled := Spelled.phrase (k.spells []) (.filler filler_nil)
  exact ⟨[], [], [], _, [], by simpa using hspelled, filler_nil, filler_nil, rfl⟩

/-- A phrase stands in front of the rest of the score. -/
theorem Spelled.split {q : Phrase} (h : Spelled (ps ++ q :: qs) t) :
  ∃ r, t = (ps.map Phrase.text).flatten ++ (q.text ++ r) ∧ Spells r q.text q.command ∧ Spelled qs r
  := by
  induction ps generalizing t with
  | nil =>
    cases h with
    | phrase hq h => exact ⟨_, rfl, hq, h⟩
  | cons p ps ih =>
    cases h with
    | phrase hp h =>
      obtain ⟨r, rfl, hq, hqs⟩ := ih h
      use r
      simp [hq, hqs]

/-- Addresses agree with the grammar.  At each character of a note token from one parenthesis to the
other, at most a hundred, the token with its dots is found.  Its pitch is what stands in the
parentheses in front of the first space; that is its name exactly if the name is the first thing in
them and a space follows it. -/
theorem addresses_of_tokens {cs : List Command} (h : read t = .ok cs) :
  (∃ ps, Spelled ps t ∧ WholeStars ps ∧ ps.map Phrase.command = cs) ∧
  (∀ ps p qs, Spelled (ps ++ p :: qs) t → p.IsToken →
    ∃ (k : NoteToken) (w w' : Text), p.text = w ++ (k.text ++ w') ∧ Filler w ∧ Filler w') ∧
  ∀ (k : NoteToken) (start cursor : Nat), k.StandsAt t start → k.body.length ≤ 100 →
    start ≤ cursor → cursor < start + k.body.length →
    noteAt? t cursor = some ⟨start, start + k.text.length⟩ ∧
    (∀ u v, k.inside = u ++ ' ' :: v → ' ' ∉ u →
      pitchAt? t cursor = some ⟨start + 1, start + 1 + u.length⟩) ∧
    (' ' ∉ k.inside → pitchAt? t cursor = none) ∧
    (pitchAt? t cursor =
        some ⟨start + 1 + k.lead.length, start + 1 + k.lead.length + k.name.length⟩ ↔
      k.lead = [] ∧ k.gap.head? = some ' ')
  := by
  refine ⟨spelled_of_commands (read_eq_ok.mp h), ?_, ?_⟩
  · intro ps p qs hps htoken
    obtain ⟨r, -, hp, -⟩ := hps.split
    apply hp.exists_token htoken
  · rintro k start cursor ⟨ps, w, w', c, qs, hps, hw, hw', rfl⟩ hlimit hstart hcursor
    obtain ⟨r, rfl, -, hqs⟩ := hps.split
    obtain ⟨d, rfl⟩ := Nat.exists_eq_add_of_le hstart
    have hd : d < k.body.length := by omega
    have hr : Stops (· == dot) (w' ++ r) := (hw'.ends hqs.ends).stops_dot
    have htext : (ps.map Phrase.text).flatten ++ (w ++ (k.text ++ w') ++ r) =
        ((ps.map Phrase.text).flatten ++ w) ++ (k.text ++ (w' ++ r)) := by
      simp
    dsimp only
    rw [htext, ← List.length_append, noteAt?_token k hlimit hr hd, pitchAt?_token k hlimit hr hd]
    refine ⟨rfl, ?_, ?_, ?_⟩
    · intro u v hinside hu
      rw [hinside, List.append_assoc, List.cons_append, Text.indexOf?_append hu]
      rfl
    · intro hinside
      rw [Text.indexOf?_eq_none]
      · rfl
      · rw [List.mem_append, not_or]
        exact ⟨hinside, space_not_mem_behind k⟩
    · rw [← indexOf?_space_name_iff]
      constructor
      · intro hpitch
        obtain ⟨i, hi, hspan⟩ := Option.map_eq_some_iff.mp hpitch
        rw [Span.mk.injEq] at hspan
        have hlead : k.lead.length = 0 := by omega
        have hname : i = k.name.length := by omega
        rw [hi, hname]
        exact ⟨List.length_eq_zero_iff.mp hlead, rfl⟩
      · rintro ⟨hlead, hindex⟩
        rw [hindex, hlead]
        rfl

/-- The token `(Cn_4 1/4)+` with some filler in front of its name. -/
def quarterNote (lead : Text) (hlead : Filler lead) : NoteToken where
  lead := lead
  name := "Cn_4".toList
  gap := [' ']
  fraction := "1/4".toList
  inner := []
  tail := []
  outer := ['+']
  filler_lead := hlead
  run_name := ⟨List.cons_ne_nil _ _, List.all_eq_true.mp rfl⟩
  run_gap := ⟨List.cons_ne_nil _ _, List.all_eq_true.mp rfl⟩
  run_fraction := ⟨List.cons_ne_nil _ _, List.all_eq_true.mp rfl⟩
  dots_inner := nofun
  filler_tail := nofun
  dots_outer := List.forall_mem_singleton.mpr rfl

/-- On its closing parenthesis the token is found with its dot, and its name. -/
theorem addresses_of_tokens_quarterNote :
  read "(Cn_4 1/4)+".toList = .ok [⟨.note "Cn_4".toList, "1/4+".toList⟩] ∧
    (quarterNote [] nofun).StandsAt "(Cn_4 1/4)+".toList 0 ∧
    noteAt? "(Cn_4 1/4)+".toList (9 : Nat) = some ⟨0, 11⟩ ∧
    pitchAt? "(Cn_4 1/4)+".toList (9 : Nat) = some ⟨1, 5⟩
  := by
  have hread : read "(Cn_4 1/4)+".toList = .ok [⟨.note "Cn_4".toList, "1/4+".toList⟩] := by
    decide +kernel
  have hstands := (quarterNote [] nofun).standsAt_self
  obtain ⟨hnote, hpitch, -⟩ := (addresses_of_tokens hread).2.2 _ 0 9 hstands (by decide) (by decide)
    (by decide)
  exact ⟨hread, hstands, hnote, hpitch "Cn_4".toList "1/4".toList rfl (by decide)⟩

/-- With a space in front of its name, the pitch of a token is not its name. -/
theorem not_addresses_of_tokens_space :
  read "( Cn_4 1/4)+".toList = .ok [⟨.note "Cn_4".toList, "1/4+".toList⟩] ∧
    ¬∀ (k : NoteToken) (start cursor : Nat), k.StandsAt "( Cn_4 1/4)+".toList start →
      k.body.length ≤ 100 → start ≤ cursor → cursor < start + k.text.length →
      noteAt? "( Cn_4 1/4)+".toList cursor = some ⟨start, start + k.text.length⟩ ∧
      pitchAt? "( Cn_4 1/4)+".toList cursor =
        some ⟨start + 1 + k.lead.length, start + 1 + k.lead.length + k.name.length⟩
  := by
  constructor
  · decide +kernel
  · intro hagree
    have hpitch : pitchAt? "( Cn_4 1/4)+".toList (3 : Nat) = some ⟨1, 1⟩ := by
      decide +kernel
    obtain ⟨-, hname⟩ := hagree (quarterNote [' '] filler_space) 0 3 (NoteToken.standsAt_self _)
      (by decide) (by decide) (by decide)
    rw [hpitch] at hname
    cases hname

end Tokens

end Tunescript.Score
