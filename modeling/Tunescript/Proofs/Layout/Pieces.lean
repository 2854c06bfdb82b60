import Tunescript.Proofs.Layout.LineReading

/-!
# The pieces of the lasting commands

The commands up to the first remark are the lasting ones of a line, since the remark takes the
others when the line is read again; their pieces are the first ones of the line
(`renderLine_lasting`).  The text that a remark has taken is written behind them again
(`renderLine_retake_iff`).
-/

namespace Tunescript.Layout

open Score
open Text (isBlank)

/-- The commands up to the first remark. -/
def lasting : List Command → List Command
  | [] => []
  | c :: cs => if c.verb.isRemark then [c] else c :: lasting cs

theorem lasting_of_remark {c : Command} (h : c.verb.isRemark) (cs : List Command) :
  lasting (c :: cs) = [c]
  := by
  rw [lasting, if_pos h]

theorem lasting_of_not_remark {c : Command} (h : c.verb.isRemark = false) (cs : List Command) :
  lasting (c :: cs) = c :: lasting cs
  := by
  rw [lasting, if_neg (Bool.eq_false_iff.mp h)]

theorem isEmpty_lasting (cs : List Command) :
  (lasting cs).isEmpty = cs.isEmpty
  := by
  cases cs with
  | nil => rfl
  | cons c cs =>
    rw [lasting]
    split <;> rfl

/-- Behind the lasting commands there are others only if the last of them is a remark. -/
theorem exists_of_lasting (cs : List Command) :
  ∃ ds, cs = lasting cs ++ ds ∧
    (ds = [] ∨ ∃ c, (lasting cs).getLast? = some c ∧ c.verb.isRemark)
  := by
  induction cs with
  | nil => exact ⟨[], rfl, .inl rfl⟩
  | cons c cs ih =>
    cases hremark : c.verb.isRemark with
    | true =>
      rw [lasting_of_remark hremark]
      exact ⟨cs, rfl, .inr ⟨c, rfl, hremark⟩⟩
    | false =>
      obtain ⟨ds, hds, hlast⟩ := ih
      rw [lasting_of_not_remark hremark]
      use ds, congrArg (c :: ·) hds
      apply hlast.imp_right
      rintro ⟨d, hd, hd'⟩
      use d
      rw [List.getLast?_cons, hd]
      exact ⟨rfl, hd'⟩

theorem remark_lasting (cs : List Command) :
  ∀ c ∈ (lasting cs).dropLast, c.verb.isRemark = false
  := by
  induction cs with
  | nil => apply List.forall_mem_nil
  | cons c cs ih =>
    cases hremark : c.verb.isRemark with
    | true =>
      rw [lasting_of_remark hremark]
      apply List.forall_mem_nil
    | false =>
      rw [lasting_of_not_remark hremark]
      cases hlasting : lasting cs with
      | nil => apply List.forall_mem_nil
      | cons d ds =>
        rw [hlasting] at ih
        rw [List.dropLast_cons_of_ne_nil (List.cons_ne_nil d ds), List.forall_mem_cons]
        exact ⟨hremark, ih⟩

section Piece

variable {α : Type} [Scalar α] {layouts : List (List (Segment α))} {bars : Nat} {time : α}

theorem isNote_of_isRemark {verb : Verb} (h : verb.isRemark) :
  verb.isNote = false
  := by
  cases verb with
  | note name => cases h
  | _ => rfl

theorem controlText_remark {verb : Verb} (hremark : verb.isRemark) {noun rest : Text}
    (h : rest = [] ∨ noun ≠ []) :
  controlText ⟨verb, noun ++ rest⟩ = controlText ⟨verb, noun⟩ ++ rest
  := by
  cases verb with
  | comment => apply (List.append_assoc _ _ _).symm
  | reset =>
    obtain rfl | hne := h
    · rw [List.append_nil, List.append_nil]
    · obtain ⟨x, noun, rfl⟩ := List.exists_cons_of_ne_nil hne
      rfl
  | _ => cases hremark

theorem barsAfter_reread (c : Command) :
  barsAfter bars (reread c) = barsAfter bars c
  := by
  rw [barsAfter, barsAfter, verb_reread]

theorem timeAfter_reread (c : Command) :
  timeAfter time (reread c) = timeAfter time c
  := by
  obtain ⟨verb, noun⟩ := c
  cases verb with
  | _ => rfl

theorem map_flatten_cons (p : Text) (o : Except ArithmeticFault (List Text)) :
  (do
    let ps ← o
    return p :: ps).map List.flatten = (o.map List.flatten).map (p ++ ·)
  := by
  cases o with
  | error f => rfl
  | ok ps => rfl

theorem map_flatten_append_cons (p rest : Text) (o : Except ArithmeticFault (List Text)) :
  (do
    let ps ← o
    return p :: ps).map (fun (ps : List Text) => ps.flatten ++ rest) =
      (o.map fun ps => ps.flatten ++ rest).map (p ++ ·)
  := by
  cases o with
  | error f => rfl
  | ok ps => apply congrArg Except.ok (List.append_assoc p ps.flatten rest)

variable [Memory]

theorem pieces_singleton {c : Command} (h : c.verb.isNote = false) :
  pieces layouts bars time [c] = .ok [controlText c]
  := by
  rw [pieces_cons, piece_of_not_note h]
  rfl

/-- The pieces of the lasting commands are the first pieces of a line. -/
theorem pieces_lasting {cs : List Command} {ps : List Text}
    (h : pieces layouts bars time cs = .ok ps) :
  ∃ qs rs, pieces layouts bars time (lasting cs) = .ok qs ∧ ps = qs ++ rs
  := by
  induction cs generalizing bars time ps with
  | nil => exact ⟨ps, [], h, (List.append_nil ps).symm⟩
  | cons c cs ih =>
    obtain ⟨p, qs, hp, hqs, rfl⟩ := pieces_cons_eq_ok h
    cases hremark : c.verb.isRemark with
    | true =>
      have hnote := isNote_of_isRemark hremark
      rw [piece_of_not_note hnote] at hp
      cases hp
      rw [lasting_of_remark hremark]
      exact ⟨[controlText c], qs, pieces_singleton hnote, rfl⟩
    | false =>
      obtain ⟨qs', rs, hqs', rfl⟩ := ih hqs
      rw [lasting_of_not_remark hremark]
      use p :: qs', rs
      rw [pieces_cons, isEmpty_lasting, hp, hqs']
      exact ⟨rfl, rfl⟩

/-- A remark at the end of a line is written at the end of its pieces. -/
theorem flatten_pieces_of_remark {cs : List Command} {ps : List Text}
    (h : pieces layouts bars time cs = .ok ps) {c : Command} (hc : cs.getLast? = some c)
    (hremark : c.verb.isRemark) :
  ∃ u, ps.flatten = u ++ controlText c
  := by
  induction cs generalizing bars time ps with
  | nil => cases hc
  | cons d cs ih =>
    obtain ⟨p, qs, hp, hqs, rfl⟩ := pieces_cons_eq_ok h
    obtain _ | ⟨e, cs⟩ := cs
    · obtain rfl : d = c := Option.some.inj hc
      rw [piece_of_not_note (isNote_of_isRemark hremark)] at hp
      cases hp
      cases hqs
      use []
      simp
    · rw [List.getLast?_cons_cons] at hc
      obtain ⟨u, hu⟩ := ih hqs hc
      use p ++ u
      rw [List.flatten_cons, hu, List.append_assoc]

theorem piece_reread (c : Command) (hasNext : Bool) :
  piece layouts bars time (reread c) hasNext = piece layouts bars time c hasNext
  := by
  obtain ⟨verb, noun⟩ := c
  cases verb with
  | _ => rfl

/-- The text that a remark at the end of a line has taken is written at the end of the pieces. -/
theorem pieces_retake {cs : List Command} {rest : Text}
    (hlast : ∀ c ∈ cs.dropLast, c.verb.isRemark = false) (htakes : Takes cs rest)
    (hrest : ∀ c ∈ cs, c.verb.isRemark →
      remarkNoun c.verb (c.noun ++ rest) = c.noun ++ rest ∧ (rest = [] ∨ c.noun ≠ [])) :
  (pieces layouts bars time (cs.map (retake rest))).map List.flatten =
    (pieces layouts bars time cs).map fun ps => ps.flatten ++ rest
  := by
  induction cs generalizing bars time with
  | nil =>
    obtain rfl | ⟨c, hc, -⟩ := htakes
    · rfl
    · cases hc
  | cons c cs ih =>
    cases hremark : c.verb.isRemark with
    | true =>
      obtain rfl := eq_nil_of_remark hlast hremark
      obtain ⟨hnoun, hne⟩ := hrest c List.mem_cons_self hremark
      have hretake : retake rest c = ⟨c.verb, c.noun ++ rest⟩ := by
        rw [retake, if_pos hremark, hnoun]
      have hnote : (retake rest c).verb.isNote = false := by
        rw [verb_retake]
        apply isNote_of_isRemark hremark
      rw [List.map_singleton, pieces_singleton hnote, pieces_singleton (isNote_of_isRemark hremark),
        hretake, Except.map, Except.map, List.flatten_singleton, List.flatten_singleton,
        controlText_remark hremark hne]
    | false =>
      have ih := @ih (barsAfter bars c) (timeAfter time c) (remark_tail hlast)
        (htakes.tail hremark) fun d hd => hrest d (List.mem_cons_of_mem c hd)
      rw [List.map_cons, retake_of_not_remark hremark, pieces_cons, pieces_cons, piece_reread,
        barsAfter_reread, timeAfter_reread, List.isEmpty_map]
      cases piece layouts bars time c (!cs.isEmpty) with
      | error f => rfl
      | ok p =>
        apply (map_flatten_cons p _).trans
        rw [ih]
        apply (map_flatten_append_cons p rest _).symm

/-- The text is what a remark at the end of the commands has taken from its line. -/
structure Taken (cs : List Command) (rest : Text) : Prop where
  /-- Only a remark has taken it. -/
  takes : Takes cs rest
  /-- It is on the line. -/
  newline : '\n' ∉ rest
  /-- It ends with no blank. -/
  last : ∀ x, rest.getLast? = some x → isBlank x = false
  /-- The remark was read from a note. -/
  length : rest ≠ [] → ∀ c ∈ cs, c.verb.isRemark → isLengthText c.noun

/-- The pieces of a line that ends with a remark which has taken something end with no blank. -/
theorem trimEnd_flatten_pieces {cs : List Command} {ps : List Text}
    (h : pieces layouts bars time cs = .ok ps) {c : Command} (hc : cs.getLast? = some c)
    (hremark : c.verb.isRemark) (hlength : isLengthText c.noun) :
  Text.trimEnd ps.flatten = ps.flatten
  := by
  obtain ⟨u, hu⟩ := flatten_pieces_of_remark h hc hremark
  obtain ⟨verb, noun⟩ := c
  obtain _ | ⟨y, noun⟩ := noun
  · cases hlength
  · apply Text.trimEnd_eq_self
    intro x hx
    have htext : ∃ v, controlText ⟨verb, y :: noun⟩ = v ++ y :: noun := by
      cases verb with
      | comment => exact ⟨_, rfl⟩
      | reset => exact ⟨_, rfl⟩
      | _ => cases hremark
    obtain ⟨v, hv⟩ := htext
    rw [hu, hv, ← List.append_assoc, List.getLast?_append_of_ne_nil _ (List.cons_ne_nil _ _)] at hx
    apply isBlank_eq_false_of_isLengthText hlength x (List.mem_of_getLast? hx)

/-- A line is written as its lasting commands are, with what the last of them has taken. -/
theorem renderLine_lasting {cs : List Command} {w : Text} (hcs : ShapedLine cs)
    (h : renderLine cs layouts = .ok w) :
  ∃ v rest, renderLine (lasting cs) layouts = .ok v ∧ w = v ++ rest ∧ Taken (lasting cs) rest
  := by
  have hwritten := written_of_renderLine hcs.shaped h
  obtain ⟨ds, hds, hlast⟩ := exists_of_lasting cs
  by_cases hnil : ds = []
  · rw [hnil, List.append_nil] at hds
    use w, []
    rw [← hds, List.append_nil]
    use h, rfl
    exact ⟨.inl rfl, List.not_mem_nil, nofun, fun hne => absurd rfl hne⟩
  · obtain hds' | ⟨c, hc, hremark⟩ := hlast
    · cases hnil hds'
    · have hlength : ∀ d ∈ lasting cs, d.verb.isRemark → isLengthText d.noun := by
        intro d hd
        apply hcs.remark d
        rw [hds, List.dropLast_append_of_ne_nil hnil]
        apply List.mem_append_left _ hd
      obtain ⟨ps, hps, hfits, rfl⟩ := renderLine_eq_ok_iff.mp h
      obtain ⟨qs, rs, hqs, rfl⟩ := pieces_lasting hps
      rw [List.flatten_append, List.length_append] at hfits
      have htrim := trimEnd_flatten_pieces hqs hc hremark
        (hlength c (List.mem_of_getLast? hc) hremark)
      have hsplit : Text.trimEnd (qs ++ rs).flatten = qs.flatten ++ Text.trimEnd rs.flatten := by
        rw [List.flatten_append, Text.trimEnd_append_of_trimmed htrim]
      use qs.flatten, Text.trimEnd rs.flatten
      use renderLine_eq_ok_iff.mpr ⟨qs, hqs, by omega, htrim⟩, hsplit
      constructor
      · apply Or.inr ⟨c, hc, hremark⟩
      · intro hmem
        apply hwritten.newline hcs.shaped
        rw [hsplit]
        apply List.mem_append_right _ hmem
      · apply fun x => Text.getLast?_trimEnd
      · intro _
        apply hlength

/-- Only behind pieces that end with no blank has something been taken. -/
theorem Taken.eq_nil_or_trimEnd {cs : List Command} {rest : Text} {ps : List Text}
    (hrest : Taken cs rest) (hps : pieces layouts bars time cs = .ok ps) :
  rest = [] ∨ Text.trimEnd ps.flatten = ps.flatten
  := by
  obtain hnil | ⟨c, hc, hremark⟩ := hrest.takes
  · apply Or.inl hnil
  · by_cases hnil : rest = []
    · apply Or.inl hnil
    · apply Or.inr
      apply trimEnd_flatten_pieces hps hc hremark
      apply hrest.length hnil c (List.mem_of_getLast? hc) hremark

theorem Taken.trimEnd_append {cs : List Command} {rest : Text} {ps : List Text}
    (hrest : Taken cs rest) (hps : pieces layouts bars time cs = .ok ps) :
  Text.trimEnd (ps.flatten ++ rest) = Text.trimEnd ps.flatten ++ rest
  := by
  obtain hnil | htrim := hrest.eq_nil_or_trimEnd hps
  · rw [hnil, List.append_nil, List.append_nil]
  · rw [Text.trimEnd_append_of_trimmed htrim, htrim, Text.trimEnd_eq_self hrest.last]

/-- The commands with the text that the last of them has taken are written with this text if memory
holds that line. -/
theorem renderLine_retake_iff {cs : List Command} {rest w : Text} (hcs : ∀ c ∈ cs, c.Shaped)
    (hlegible : LegibleLine cs) (hrest : Taken cs rest) :
  renderLine (cs.map (retake rest)) layouts = .ok w ↔
    ∃ v, renderLine cs layouts = .ok v ∧ w = v ++ rest ∧ w.length < Memory.size
  := by
  have hnoun : ∀ c ∈ cs, c.verb.isRemark →
      remarkNoun c.verb (c.noun ++ rest) = c.noun ++ rest ∧ (rest = [] ∨ c.noun ≠ []) := by
    intro c hc hremark
    by_cases hnil : rest = []
    · rw [hnil, List.append_nil]
      exact ⟨remarkNoun_of_legible (hcs c hc) (hlegible.legible c hc) hremark, .inl rfl⟩
    · have hlength := hrest.length hnil c hc hremark
      use remarkNoun_append (hcs c hc) hremark hlength hnil hrest.newline hrest.last
      apply Or.inr
      intro hnoun
      rw [hnoun] at hlength
      cases hlength
  have hpieces : (pieces layouts 0 Scalar.zero (cs.map (retake rest))).map List.flatten =
      (pieces layouts 0 Scalar.zero cs).map fun ps => ps.flatten ++ rest :=
    pieces_retake hlegible.remark hrest.takes hnoun
  constructor
  · intro h
    have hlength := length_lt_of_renderLine h
    obtain ⟨qs, hqs, hfits, rfl⟩ := renderLine_eq_ok_iff.mp h
    rw [hqs] at hpieces
    obtain ⟨ps, hps, hflatten⟩ := map_eq_ok hpieces.symm
    rw [hflatten, List.length_append] at hfits
    refine ⟨_, renderLine_eq_ok_iff.mpr ⟨ps, hps, by omega, rfl⟩, ?_, hlength⟩
    rw [hflatten, hrest.trimEnd_append hps]
  · rintro ⟨v, hv, rfl, hlength⟩
    obtain ⟨ps, hps, hfits, rfl⟩ := renderLine_eq_ok_iff.mp hv
    rw [hps] at hpieces
    obtain ⟨qs, hqs, hflatten⟩ := map_eq_ok hpieces
    dsimp only at hflatten
    refine renderLine_eq_ok_iff.mpr ⟨qs, hqs, ?_, ?_⟩
    · rw [← hflatten]
      obtain hnil | htrim := hrest.eq_nil_or_trimEnd hps
      · rw [hnil, List.append_nil]
        exact hfits
      · rw [← htrim]
        exact hlength
    · rw [← hflatten, hrest.trimEnd_append hps]

end Piece

end Tunescript.Layout
