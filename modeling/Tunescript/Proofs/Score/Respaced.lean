import Tunescript.Proofs.Score.Acceptance

/-!
# Texts with other filler

Filler inside a line can be replaced by other filler up to the first remark (`Respaced`).  Every
part of a command is read from a respaced text as it is read from the text, and what stands behind
it is respaced again, so that the commands of the texts are the same (`Respaced.commands_eq_ok`).
-/

namespace Tunescript.Score

open Text (endsLine)

/-- Whether a character opens a remark, which has everything up to the end of its line. -/
def opensRemark (c : Char) : Bool := c == '~' || c == ';'

/-- In front of the first remark, runs of filler are replaced by other runs of filler; what follows
the opening of the remark is the same. -/
inductive Respaced : Text → Text → Prop
  /-- The end of the text. -/
  | nil : Respaced [] []
  /-- A remark and everything behind it. -/
  | remark {x : Char} (hx : opensRemark x) (t : Text) : Respaced (x :: t) (x :: t)
  /-- A character that is no filler. -/
  | keep {x : Char} {t u : Text} (hx : isInlineFiller x = false) (hremark : opensRemark x = false)
    (h : Respaced t u) : Respaced (x :: t) (x :: u)
  /-- A run of filler that is not part of a longer one. -/
  | fill {w v t u : Text} (hw : Run isInlineFiller w) (hv : Run isInlineFiller v)
    (ht : Stops isInlineFiller t) (h : Respaced t u) : Respaced (w ++ t) (v ++ u)

/-- A class of characters that are neither filler nor the opening of a remark. -/
def Plain (p : Char → Bool) : Prop := ∀ c, p c → isFiller c = false ∧ opensRemark c = false

section Classes

/-- No command goes on with a remark, and no remark is filler. -/
theorem of_opensRemark {c : Char} (hc : opensRemark c) :
  isFiller c = false ∧ isInner c = false
  := by
  rw [opensRemark, Bool.or_eq_true, beq_iff_eq, beq_iff_eq] at hc
  obtain rfl | rfl := hc
  · exact ⟨rfl, rfl⟩
  · exact ⟨rfl, rfl⟩

theorem plain_of_isInner {p : Char → Bool} (hp : ∀ c, p c → isInner c) :
  Plain p
  := by
  intro c hc
  use isFiller_eq_false_of_isInner (hp c hc)
  apply Bool.eq_false_iff.mpr
  intro hremark
  have hinner := hp c hc
  rw [(of_opensRemark hremark).2] at hinner
  cases hinner

theorem plain_beq {x : Char} (hx : isFiller x = false ∧ opensRemark x = false) :
  Plain (· == x)
  := by
  intro c hc
  rw [eq_of_beq hc]
  apply hx

theorem isFiller_of_isInlineFiller {c : Char} (hc : isInlineFiller c) :
  isFiller c
  := by
  rw [isFiller, hc]
  rfl

theorem isInlineFiller_eq_false {c : Char} (hc : isFiller c = false) :
  isInlineFiller c = false
  := by
  apply Bool.eq_false_iff.mpr
  intro hfiller
  rw [isFiller_of_isInlineFiller hfiller] at hc
  cases hc

theorem filler_of_run {w : Text} (hw : Run isInlineFiller w) :
  Filler w
  := fun c hc => isFiller_of_isInlineFiller (hw.2 c hc)

/-- A run of filler starts with filler. -/
theorem exists_of_run {w : Text} (hw : Run isInlineFiller w) :
  ∃ c w', w = c :: w' ∧ isInlineFiller c
  := by
  obtain _ | ⟨c, w⟩ := w
  · cases hw.1 rfl
  · exact ⟨c, w, rfl, hw.2 c List.mem_cons_self⟩

end Classes

namespace Respaced

variable {t u r : Text} {c : Command} {x : Char}

theorem refl (t : Text) :
  Respaced t t
  := by
  induction hn : t.length using Nat.strong_induction_on generalizing t with
  | _ n ih =>
    obtain _ | ⟨x, t⟩ := t
    · exact nil
    rw [List.length_cons] at hn
    cases hfiller : isInlineFiller x with
    | true =>
      have hrun : Run isInlineFiller ((x :: t).takeWhile isInlineFiller) := by
        constructor
        · rw [List.takeWhile_cons_of_pos hfiller]
          apply List.cons_ne_nil
        · intro c hc
          apply List.mem_takeWhile_imp hc
      have hdrop : (x :: t).dropWhile isInlineFiller = t.dropWhile isInlineFiller :=
        List.dropWhile_cons_of_pos hfiller
      have hlength := length_dropWhile_le isInlineFiller t
      rw [← List.takeWhile_append_dropWhile (p := isInlineFiller) (l := x :: t)]
      apply fill hrun hrun
      · intro c hc
        have hstop := List.head?_dropWhile_not isInlineFiller (x :: t)
        rw [hc] at hstop
        exact hstop
      · rw [hdrop]
        apply ih _ (by omega) _ rfl
    | false =>
      cases hremark : opensRemark x with
      | true => exact remark hremark t
      | false => exact (ih _ (by omega) t rfl).keep hfiller hremark

/-- What holds no filler and opens no remark can stand in front. -/
theorem append_left {p : Text} (hp : p.all fun c => !isInlineFiller c && !opensRemark c)
    (h : Respaced t u) :
  Respaced (p ++ t) (p ++ u)
  := by
  induction p with
  | nil => apply h
  | cons x p ih =>
    rw [List.all_cons, Bool.and_eq_true, Bool.and_eq_true, Bool.not_eq_true',
      Bool.not_eq_true'] at hp
    exact keep hp.1.1 hp.1.2 (ih hp.2)


/-- Where one text goes on with filler the other does, else they go on with the same character. -/
theorem head (h : Respaced t u) :
  t.head? = u.head? ∨
    ∃ c d, t.head? = some c ∧ u.head? = some d ∧ isInlineFiller c ∧ isInlineFiller d
  := by
  cases h with
  | nil => exact .inl rfl
  | remark => exact .inl rfl
  | keep => exact .inl rfl
  | fill hw hv =>
    obtain ⟨c, w, rfl, hc⟩ := exists_of_run hw
    obtain ⟨d, v, rfl, hd⟩ := exists_of_run hv
    exact .inr ⟨c, d, rfl, rfl, hc, hd⟩

/-- The texts stop the same classes of characters, if these make no difference between fillers. -/
theorem stops {p : Char → Bool} (hp : ∀ c d, isInlineFiller c → isInlineFiller d → p c = p d)
    (h : Respaced t u) (ht : Stops p t) :
  Stops p u
  := by
  obtain heq | ⟨c, d, hc, hd, hfiller, hfiller'⟩ := h.head
  · rw [Stops, ← heq]
    apply ht
  · intro e he
    rw [hd, Option.some_inj] at he
    rw [← he, ← hp c d hfiller hfiller']
    apply ht c hc

theorem symm (h : Respaced t u) :
  Respaced u t
  := by
  induction h with
  | nil => exact nil
  | remark hx t => exact remark hx t
  | keep hx hremark _ ih => exact ih.keep hx hremark
  | fill hw hv ht h ih =>
    apply fill hv hw _ ih
    apply h.stops _ ht
    intro c d hc hd
    rw [hc, hd]

theorem of_nil (h : Respaced [] u) :
  u = []
  := by
  generalize ht : ([] : Text) = t at h
  cases h with
  | nil => rfl
  | remark => cases ht
  | keep => cases ht
  | fill hw => cases hw.1 (List.append_eq_nil_iff.mp ht.symm).1

theorem of_cons (hx : isFiller x = false ∧ opensRemark x = false) (h : Respaced (x :: t) u) :
  ∃ v, u = x :: v ∧ Respaced t v
  := by
  generalize hs : x :: t = s at h
  cases h with
  | nil => cases hs
  | remark hremark =>
    cases hs
    rw [hx.2] at hremark
    cases hremark
  | keep _ _ h =>
    cases hs
    exact ⟨_, rfl, h⟩
  | fill hw =>
    obtain ⟨c, w, rfl, hc⟩ := exists_of_run hw
    cases hs
    rw [isInlineFiller_eq_false hx.1] at hc
    cases hc

theorem of_remark (hx : opensRemark x) (h : Respaced (x :: t) u) :
  u = x :: t
  := by
  generalize hs : x :: t = s at h
  cases h with
  | nil => cases hs
  | remark => rfl
  | keep _ hremark =>
    cases hs
    rw [hx] at hremark
    cases hremark
  | fill hw =>
    obtain ⟨c, w, rfl, hc⟩ := exists_of_run hw
    cases hs
    rw [isInlineFiller_eq_false (of_opensRemark hx).1] at hc
    cases hc

/-- The characters of a class are the same in front of both texts, and what follows is respaced. -/
theorem span {p : Char → Bool} (hp : Plain p) (h : Respaced t u) :
  t.takeWhile p = u.takeWhile p ∧ Respaced (t.dropWhile p) (u.dropWhile p)
  := by
  induction h with
  | nil => exact ⟨rfl, nil⟩
  | @remark x hx t =>
    have hpx : ¬p x := by
      intro hpx
      rw [(hp x hpx).2] at hx
      cases hx
    rw [List.dropWhile_cons_of_neg hpx]
    exact ⟨rfl, remark hx t⟩
  | @keep x t u hx hremark h ih =>
    by_cases hpx : p x
    · rw [List.takeWhile_cons_of_pos hpx, List.takeWhile_cons_of_pos hpx,
        List.dropWhile_cons_of_pos hpx, List.dropWhile_cons_of_pos hpx, ih.1]
      exact ⟨rfl, ih.2⟩
    · rw [List.takeWhile_cons_of_neg hpx, List.takeWhile_cons_of_neg hpx,
        List.dropWhile_cons_of_neg hpx, List.dropWhile_cons_of_neg hpx]
      exact ⟨rfl, h.keep hx hremark⟩
  | fill hw hv ht h =>
    have hfill := h.fill hw hv ht
    have hnot {c : Char} (hc : isInlineFiller c) : ¬p c := by
      intro hpc
      have hfiller := isFiller_of_isInlineFiller hc
      rw [(hp c hpc).1] at hfiller
      cases hfiller
    obtain ⟨c, w, rfl, hc⟩ := exists_of_run hw
    obtain ⟨d, v, rfl, hd⟩ := exists_of_run hv
    rw [List.cons_append, List.cons_append] at *
    rw [List.takeWhile_cons_of_neg (hnot hc), List.takeWhile_cons_of_neg (hnot hd),
      List.dropWhile_cons_of_neg (hnot hc), List.dropWhile_cons_of_neg (hnot hd)]
    exact ⟨rfl, hfill⟩

theorem skip (h : Respaced t u) :
  Respaced (Score.skip t) (Score.skip u)
  := by
  induction h with
  | nil => exact nil
  | @remark x hx t =>
    rw [skip_cons_of_not_filler (of_opensRemark hx).1]
    exact remark hx t
  | @keep x t u hx hremark h ih =>
    cases hfiller : isFiller x with
    | true =>
      rw [skip_cons_of_filler hfiller, skip_cons_of_filler hfiller]
      exact ih
    | false =>
      rw [skip_cons_of_not_filler hfiller, skip_cons_of_not_filler hfiller]
      exact h.keep hx hremark
  | fill hw hv _ _ ih =>
    rw [(filler_of_run hw).skip_append, (filler_of_run hv).skip_append]
    exact ih

theorem some1_eq_ok {p : Char → Bool} (hp : Plain p) {e : Expectation} {b : Text} (h : Respaced t u)
    (ht : some1 p e t = .ok (b, r)) :
  ∃ r', some1 p e u = .ok (b, r') ∧ Respaced r r'
  := by
  obtain ⟨htake, hdrop⟩ := h.span hp
  obtain ⟨hne, rfl, rfl⟩ := eq_of_some1 ht
  use u.dropWhile p
  rw [some1, ← htake, if_neg (by simpa using hne)]
  exact ⟨rfl, hdrop⟩

/-- Where filler has to stand filler stands. -/
theorem gap_eq_ok {e : Expectation} {b : Text} (h : Respaced t u)
    (ht : some1 isFiller e t = .ok (b, r)) :
  ∃ b' r', some1 isFiller e u = .ok (b', r') ∧ Respaced r r'
  := by
  obtain ⟨hne, rfl, rfl⟩ := eq_of_some1 ht
  have hhead : ∃ c, u.head? = some c ∧ isFiller c := by
    obtain _ | ⟨c, t⟩ := t
    · cases hne rfl
    have hc : isFiller c := by
      by_contra hc
      apply hne
      apply List.takeWhile_cons_of_neg hc
    obtain heq | ⟨-, d, -, hd, -, hfiller⟩ := h.head
    · exact ⟨c, heq.symm, hc⟩
    · exact ⟨d, hd, isFiller_of_isInlineFiller hfiller⟩
  obtain ⟨c, hc, hfiller⟩ := hhead
  exact ⟨_, _, some1_of_head hc hfiller e, h.skip⟩

theorem literal_eq_ok {l : Text} (hl : l.all fun c => !isFiller c && !opensRemark c)
    (h : Respaced t u) (ht : literal l t = .ok r) :
  ∃ r', literal l u = .ok r' ∧ Respaced r r'
  := by
  obtain rfl := eq_append_of_literal ht
  have hsplit : ∃ r', u = l ++ r' ∧ Respaced r r' := by
    clear ht
    induction l generalizing u with
    | nil => exact ⟨u, rfl, h⟩
    | cons x l ih =>
      rw [List.all_cons, Bool.and_eq_true] at hl
      obtain ⟨v, rfl, htail⟩ := h.of_cons (by simpa using hl.1)
      obtain ⟨r', rfl, hrest⟩ := ih hl.2 htail
      exact ⟨r', rfl, hrest⟩
  obtain ⟨r', rfl, hrest⟩ := hsplit
  exact ⟨r', literal_append l r', hrest⟩

theorem voice_eq_ok (h : Respaced t u) (ht : voice t = .ok (c, r)) :
  ∃ r', voice u = .ok (c, r') ∧ Respaced r r'
  := by
  obtain ⟨name, t₁, hname, rfl, rfl⟩ := Score.voice_eq_ok ht
  obtain ⟨u₁, hname', h⟩ := h.skip.some1_eq_ok (plain_of_isInner isInner_of_isNameChar) hname
  use Score.skip u₁
  rw [voice, hname']
  exact ⟨rfl, h.skip⟩

theorem tempo_eq_ok (h : Respaced t u) (ht : tempo t = .ok (c, r)) :
  ∃ r', tempo u = .ok (c, r') ∧ Respaced r r'
  := by
  obtain ⟨number, t₁, t₂, t₃, hnumber, hsuffix, hclose, rfl, rfl⟩ := Score.tempo_eq_ok ht
  obtain ⟨u₁, hnumber', h⟩ := h.skip.some1_eq_ok (plain_of_isInner fun c hc =>
    isInner_of_isFractionChar c (isFractionChar_of_isDigit c hc)) hnumber
  obtain ⟨u₂, hsuffix', h⟩ := h.literal_eq_ok rfl hsuffix
  obtain ⟨u₃, hclose', h⟩ := h.skip.literal_eq_ok rfl hclose
  use Score.skip u₃
  simp only [tempo, hnumber', hsuffix', hclose', bind, Except.bind]
  exact ⟨rfl, h.skip⟩

theorem time_eq_ok (h : Respaced t u) (ht : time t = .ok (c, r)) :
  ∃ r', time u = .ok (c, r') ∧ Respaced r r'
  := by
  obtain ⟨fraction, t₁, t₂, hfraction, hclose, rfl, rfl⟩ := Score.time_eq_ok ht
  obtain ⟨u₁, hfraction', h⟩ :=
    h.skip.some1_eq_ok (plain_of_isInner isInner_of_isFractionChar) hfraction
  obtain ⟨u₂, hclose', h⟩ := h.skip.literal_eq_ok rfl hclose
  use Score.skip u₂
  simp only [time, hfraction', hclose', bind, Except.bind]
  exact ⟨rfl, h.skip⟩

theorem bracket_eq_ok (h : Respaced t u) (ht : bracket t = .ok (c, r)) :
  ∃ r', bracket u = .ok (c, r') ∧ Respaced r r'
  := by
  rw [bracket] at ht
  split at ht
  · rename_i htempo
    cases ht
    obtain ⟨r', htempo', h⟩ := h.tempo_eq_ok htempo
    use r'
    rw [bracket, htempo']
    exact ⟨rfl, h⟩
  · split at ht
    · rename_i hfails _ _ htime
      cases ht
      obtain ⟨r', htime', hrest⟩ := h.time_eq_ok htime
      use r'
      rw [bracket, htime']
      -- A tempo in the one text is a tempo in the other.
      cases htempo' : tempo u with
      | error o' => exact ⟨rfl, hrest⟩
      | ok p =>
        obtain ⟨r'', htempo, -⟩ := h.symm.tempo_eq_ok htempo'
        rw [hfails] at htempo
        cases htempo
    · cases ht

theorem note_eq_ok (h : Respaced t u) (ht : note t = .ok (c, r)) :
  ∃ r', note u = .ok (c, r') ∧ Respaced r r'
  := by
  obtain ⟨name, t₁, gap, t₂, length, t₃, t₄, hname, hgap, hlength, hclose, rfl, rfl⟩ :=
    Score.note_eq_ok ht
  have hdot := plain_beq (x := dot) ⟨rfl, rfl⟩
  obtain ⟨u₁, hname', h⟩ := h.skip.some1_eq_ok (plain_of_isInner isInner_of_isNameChar) hname
  obtain ⟨gap', u₂, hgap', h⟩ := h.gap_eq_ok hgap
  obtain ⟨u₃, hlength', h⟩ :=
    h.some1_eq_ok (plain_of_isInner isInner_of_isFractionChar) hlength
  obtain ⟨hinner, h⟩ := h.span hdot
  obtain ⟨u₄, hclose', h⟩ := h.skip.literal_eq_ok rfl hclose
  obtain ⟨houter, h⟩ := h.span hdot
  use Score.skip (u₄.dropWhile (· == dot))
  simp only [note, hname', hgap', hlength', hclose', bind, Except.bind]
  rw [hinner, houter]
  exact ⟨rfl, h.skip⟩

/-- The command in front of a text stands in front of the respaced text, and what follows is
respaced. -/
theorem command_eq_ok (h : Respaced t u) (ht : command t = .ok (c, r)) :
  ∃ r', command u = .ok (c, r') ∧ Respaced r r'
  := by
  have hskip := h.skip
  have hopening {x : Char} {v : Text} (hv : Score.skip t = x :: v)
      (hx : isFiller x = false ∧ opensRemark x = false) :
      ∃ w, Score.skip u = x :: w ∧ Respaced v w := by
    rw [hv] at hskip
    apply hskip.of_cons hx
  have hremark {x : Char} {v : Text} (hv : Score.skip t = x :: v) (hx : opensRemark x) :
      command u = command t := by
    rw [hv] at hskip
    apply command_congr
    rw [hskip.of_remark hx, hv]
  have hcommand := ht
  rw [command] at ht
  split at ht
  · rename_i v hv
    rw [hremark hv rfl]
    exact ⟨r, hcommand, refl r⟩
  · rename_i v hv
    obtain ⟨w, hw, hrest⟩ := hopening hv ⟨rfl, rfl⟩
    rw [command, hw]
    apply hrest.bracket_eq_ok ht
  · rename_i v hv
    obtain ⟨w, hw, hrest⟩ := hopening hv ⟨rfl, rfl⟩
    obtain ⟨hstars, hrest⟩ := hrest.span (plain_beq (x := '*') ⟨rfl, rfl⟩)
    cases ht
    rw [command, hw, hstars]
    exact ⟨_, rfl, hrest.skip⟩
  · rename_i v hv
    obtain ⟨w, hw, hrest⟩ := hopening hv ⟨rfl, rfl⟩
    rw [command, hw]
    apply hrest.voice_eq_ok ht
  · rename_i v hv
    obtain ⟨w, hw, hrest⟩ := hopening hv ⟨rfl, rfl⟩
    cases ht
    rw [command, hw]
    exact ⟨_, rfl, hrest.skip⟩
  · rename_i v hv
    rw [hremark hv rfl]
    exact ⟨r, hcommand, refl r⟩
  · rename_i v hv
    obtain ⟨w, hw, hrest⟩ := hopening hv ⟨rfl, rfl⟩
    rw [command, hw]
    apply hrest.note_eq_ok ht
  · cases ht

/-- A respaced text has the commands of the text. -/
theorem commands_eq_ok {cs : List Command} (h : Respaced t u) (ht : commands t = .ok cs) :
  commands u = .ok cs
  := by
  induction cs generalizing t u with
  | nil =>
    obtain ⟨hnil, -⟩ | ⟨c, r, ds, -, -, hcs⟩ := Score.commands_eq_ok ht
    · have hskip := h.skip
      rw [hnil] at hskip
      apply commands_nil hskip.of_nil
    · cases hcs
  | cons c cs ih =>
    obtain ⟨-, hcs⟩ | ⟨d, r, ds, hcommand, hrest, hcs⟩ := Score.commands_eq_ok ht
    · cases hcs
    · cases hcs
      obtain ⟨r', hcommand', h⟩ := h.command_eq_ok hcommand
      rw [commands_of_ok hcommand', ih h hrest]
      rfl

/-- Filler is all that is replaced. -/
theorem filter_eq (h : Respaced t u) :
  (t.filter fun c => !isInlineFiller c) = u.filter fun c => !isInlineFiller c
  := by
  have hrun {w : Text} (hw : Run isInlineFiller w) :
      (w.filter fun c => !isInlineFiller c) = [] := by
    apply List.filter_eq_nil_iff.mpr
    intro c hc
    rw [hw.2 c hc]
    decide
  induction h with
  | nil => rfl
  | remark => rfl
  | keep hx _ _ ih =>
    rw [List.filter_cons_of_pos (by rw [hx]; rfl), List.filter_cons_of_pos (by rw [hx]; rfl), ih]
  | fill hw hv _ _ ih => rw [List.filter_append, List.filter_append, hrun hw, hrun hv, ih]

theorem count_newline (h : Respaced t u) :
  t.count '\n' = u.count '\n'
  := by
  have hcount (s : Text) : (s.filter fun c => !isInlineFiller c).count '\n' = s.count '\n' :=
    List.count_filter rfl
  rw [← hcount t, ← hcount u, h.filter_eq]

theorem eq_nil_iff (h : Respaced t u) :
  t = [] ↔ u = []
  := by
  constructor
  · rintro rfl
    apply h.of_nil
  · rintro rfl
    apply h.symm.of_nil

theorem endsLine_eq (h : Respaced t u) :
  endsLine t = endsLine u
  := by
  have hrun {w : Text} (hw : Run isInlineFiller w) : endsLine w = false := by
    apply Bool.eq_false_iff.mpr
    intro hends
    cases hw.2 _ (Text.mem_of_endsLine hends)
  induction h with
  | nil => rfl
  | remark => rfl
  | @keep x t u _ _ h ih =>
    obtain rfl | hne := eq_or_ne t []
    · rw [h.of_nil]
    · have ht := Text.endsLine_append_of_ne_nil [x] hne
      have hu := Text.endsLine_append_of_ne_nil [x] (h.eq_nil_iff.not.mp hne)
      exact ht.trans (ih.trans hu.symm)
  | @fill w v t u hw hv _ h ih =>
    obtain rfl | hne := eq_or_ne t []
    · rw [h.of_nil, List.append_nil, List.append_nil, hrun hw, hrun hv]
    · rw [Text.endsLine_append_of_ne_nil w hne,
        Text.endsLine_append_of_ne_nil v (h.eq_nil_iff.not.mp hne), ih]

end Respaced

end Tunescript.Score
