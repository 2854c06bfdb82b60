import Tunescript.Proofs.Layout.Blocks
import Tunescript.Proofs.Layout.CoreReading
import Tunescript.Proofs.Layout.Room
import Tunescript.Proofs.Layout.Settled
import Tunescript.Proofs.Layout.Widths

/-!
# Columns of notes

A note is written in the width of its columns rounded up to a whole number, and at least in the room
of its text; what is more than the width is its excess.  The column of a note is the sum of what is
written before it.  In exact arithmetic the widths before notes that sound together agree, whatever
notes they are spread over, so that the notes start as far apart as the excesses before them differ
(`column_sub_column_eq`).  These do differ (`not_column_sub_column_eq_sixteenthVoices`).
-/

namespace Tunescript

namespace Layout

open Score
open Text (isBlank)

theorem mark_of_isNote {v : Verb} (h : v.isNote) :
  mark v = noteOpening
  := by
  cases v with
  | note name => rfl
  | _ => cases h

/-- A note in front of other commands takes the columns that it is padded to, and at least a space
behind its text. -/
theorem paddedColumns_of_next (t : Text) (columns : Int) :
  (paddedColumns t columns true : Int) = max columns (t.length + 1)
  := by
  rw [paddedColumns, spacesAroundDashes, if_pos rfl]
  split
  · omega
  · omega

section Pieces

variable (layouts : List (List (Segment Rat))) {bars : Nat} {time : Rat}

/-- The columns of a bar. -/
def barColumns (_ : Nat) (_ : Rat) (c : Command) : Rat := if c.verb = .measure then 2 else 0

/-- By how much the columns in which a note is written exceed the width of the columns under it. -/
def excess (bars : Nat) (time : Rat) (c : Command) : Rat :=
  if c.verb.isNote then
    max (⌈width layouts bars time c⌉ : Rat) ((core c).length + 1) - width layouts bars time c
  else 0

variable {layouts} {c : Command} {p : Text}

/-- A bar or a note in front of other commands takes the width of the columns under it and the
excess. -/
theorem length_piece [Memory] (hc : BarOrNote c)
    (hlayout : c.verb.isNote → bars - 1 < layouts.length)
    (h : piece layouts bars time c true = .ok p) :
  (p.length : Rat) = barColumns bars time c + width layouts bars time c + excess layouts bars time c
  := by
  obtain ⟨verb, noun⟩ := c
  obtain hbar | ⟨hnote, hlength⟩ := hc
  · obtain rfl : verb = .measure := hbar
    cases h
    rw [barColumns, width, excess, if_pos rfl]
    simp [controlText, Verb.isNote]
  · cases verb with
    | note name =>
      have hwidth : width layouts bars time ⟨.note name, noun⟩ =
          widthIn layouts (bars - 1) time (time + NoteLength.quarters noun) := by
        rw [width, if_pos hnote, timeAfter_of_isNote hnote hlength]
      have htarget : target layouts (bars - 1) time (NoteLength.quarters noun) (token name noun) =
          .ok ⌈width layouts bars time ⟨.note name, noun⟩⌉ := by
        rw [hwidth, widthIn, target, List.getElem?_eq_getElem (hlayout hnote)]
        apply Scalar.ceiling_rat
      have hpad : pad (token name noun) ⌈width layouts bars time ⟨.note name, noun⟩⌉ true =
          .ok p := by
        rw [piece] at h
        dsimp only at h
        rw [Scalar.zero_rat, Scalar.atMost_rat_eq_false_iff.mpr hlength, htarget] at h
        apply h
      have hcolumns := paddedColumns_of_next (token name noun)
        ⌈width layouts bars time ⟨.note name, noun⟩⌉
      rw [← length_pad hpad] at hcolumns
      have hcast : (p.length : Rat) =
          max (⌈width layouts bars time ⟨.note name, noun⟩⌉ : Rat)
            ((token name noun).length + 1) := by
        exact_mod_cast hcolumns
      have hbar : barColumns bars time ⟨.note name, noun⟩ = 0 := if_neg (ne_of_isNote hnote rfl)
      rw [hcast, hbar, excess, if_pos hnote, zero_add, add_sub_cancel]
      rfl
    | _ => cases hnote

/-- The text of a note has one opening, and that of a bar none. -/
theorem count_piece [Memory] {hasNext : Bool} (hc : BarOrNote c) (hshaped : c.Shaped)
    (h : piece layouts bars time c hasNext = .ok p) :
  p.count noteOpening = if c.verb.isNote then 1 else 0
  := by
  obtain ⟨gap, rfl, hgap, -⟩ := piece_eq_ok h
  have hgap : gap.count noteOpening = 0 := by
    apply List.count_eq_zero.mpr
    intro hmem
    obtain h | h := hgap _ hmem
    · cases h
    · cases h
  rw [List.count_append, hgap, Nat.add_zero]
  obtain ⟨verb, noun⟩ := c
  obtain hbar | ⟨hnote, -⟩ := hc
  · obtain rfl : verb = .measure := hbar
    rfl
  · cases verb with
    | note name =>
      obtain ⟨-, -, hname, hnoun⟩ := hshaped
      obtain ⟨length, dots, rfl, -, hlength, hdots⟩ := exists_of_isLengthText hnoun
      have hundotted := (NoteLength.undotted_append hlength hdots).1
      have hname : name.count noteOpening = 0 := by
        apply List.count_eq_zero.mpr
        intro hmem
        cases isInner_of_isNameChar _ (hname _ hmem)
      have hlength : length.count noteOpening = 0 := by
        apply List.count_eq_zero.mpr
        intro hmem
        cases isInner_of_isFractionChar _ (hlength _ hmem)
      rw [noteOpening] at hname hlength ⊢
      simp only [core, token, hundotted]
      simp [dot, Verb.isNote, List.count_replicate, hname, hlength]
    | _ => cases hnote

/-- What is written before a note takes the widths of the columns under it and the excesses, and has
an opening for each note. -/
theorem pieces_before [Memory] {u v : List Command} {ps : List Text} (hu : ∀ c ∈ u, BarOrNote c)
    (hshaped : ∀ c ∈ u, c.Shaped) (hlayout : u.foldl barsAfter bars - 1 < layouts.length)
    (h : pieces layouts bars time (u ++ c :: v) = .ok ps) :
  ∃ before t, ps.flatten = before ++ (core c ++ t) ∧
    (before.length : Rat) = along (fun b t c =>
      barColumns b t c + width layouts b t c + excess layouts b t c) bars time u ∧
    before.count noteOpening = u.countP fun c => c.verb.isNote
  := by
  induction u generalizing bars time ps with
  | nil =>
    obtain ⟨p, qs, hp, -, rfl⟩ := pieces_cons_eq_ok h
    obtain ⟨gap, rfl, -⟩ := piece_eq_ok hp
    refine ⟨[], gap ++ qs.flatten, ?_, Nat.cast_zero, rfl⟩
    rw [List.flatten_cons, List.append_assoc]
    rfl
  | cons d u ih =>
    obtain ⟨hd, hu⟩ := List.forall_mem_cons.mp hu
    obtain ⟨hdshaped, hshaped⟩ := List.forall_mem_cons.mp hshaped
    rw [List.cons_append] at h
    obtain ⟨p, qs, hp, hqs, rfl⟩ := pieces_cons_eq_ok h
    have hnext : (!(u ++ c :: v).isEmpty) = true := by simp
    rw [hnext] at hp
    have hbars : d.verb.isNote → bars - 1 < layouts.length := by
      intro hnote
      have hle := le_foldl_barsAfter bars u
      rw [List.foldl_cons, barsAfter_of_isNote hnote] at hlayout
      omega
    obtain ⟨before, t, hflatten, hlength, hcount⟩ := ih hu hshaped hlayout hqs
    refine ⟨p ++ before, t, ?_, ?_, ?_⟩
    · rw [List.flatten_cons, hflatten, List.append_assoc]
    · rw [List.length_append, Nat.cast_add, hlength, length_piece hd hbars hp, along]
    · rw [List.count_append, count_piece hd hdshaped hp, hcount, List.countP_cons, Nat.add_comm]

theorem along_barColumns (cs : List Command) :
  along barColumns bars time cs + 2 = 2 * (measureLengths time cs).length
  := by
  induction cs generalizing bars time with
  | nil =>
    rw [along, measureLengths, List.length_singleton]
    norm_num
  | cons c cs ih =>
    rw [along, measureLengths, barColumns, add_assoc]
    split
    · have htime : timeAfter time c = 0 := by
        rw [timeAfter]
        simp [*, Scalar.zero_rat]
      rw [ih, htime, List.length_cons]
      push_cast
      ring
    · rw [ih, zero_add]

end Pieces

/-- A note on a line of bars and notes is written behind as many columns as its measures, the widths
of what the notes before it fill of them and the excesses of these notes make. -/
theorem column_of_renderLine [Memory] {layouts : List (List (Segment Rat))} {u v : List Command}
    {c : Command} {w : Text} (hcs : ∀ d ∈ u ++ c :: v, BarOrNote d)
    (hshaped : ∀ d ∈ u ++ c :: v, d.Shaped) (hnote : c.verb.isNote)
    (hlayout : u.foldl barsAfter 0 - 1 < layouts.length)
    (hw : renderLine (u ++ c :: v) layouts = .ok w) :
  ∃ i : Nat, w[i]? = some noteOpening ∧
    (w.take i).count noteOpening = (u.countP fun c => c.verb.isNote) ∧
    (i : Rat) = 2 * (measureLengths 0 u).length - 2 + widthOf layouts 0 (measureLengths 0 u) +
      along (excess layouts) 0 0 u
  := by
  have hu := fun c hc => hcs c (List.mem_append_left _ hc)
  obtain ⟨ps, hps, -, rfl⟩ := renderLine_eq_ok_iff.mp hw
  obtain ⟨before, t, hflatten, hlength, hcount⟩ :=
    pieces_before hu (fun c hc => hshaped c (List.mem_append_left _ hc)) hlayout hps
  obtain ⟨x, hx⟩ := core_eq_cons c
  have hmark := mark_of_isNote hnote
  obtain ⟨y, hy⟩ : ∃ y, Text.trimEnd (core c ++ t) = noteOpening :: y := by
    obtain ⟨z, hz⟩ := Text.trimEnd_prefix_self (core c ++ t)
    cases htrim : Text.trimEnd (core c ++ t) with
    | nil => cases trimEnd_core_append c t htrim
    | cons a y =>
      rw [htrim, hx, hmark, List.cons_append, List.cons_append] at hz
      obtain ⟨rfl, -⟩ := List.cons.inj hz
      exact ⟨y, rfl⟩
  rw [hflatten, Text.trimEnd_append _ (trimEnd_core_append c t), hy]
  refine ⟨before.length, ?_, ?_, ?_⟩
  · simp
  · rw [List.take_left, hcount]
  · rw [hlength, Scalar.zero_rat, along_add, along_add, ← along_width_eq layouts hu]
    have hbars : along barColumns 0 0 u + 2 = 2 * (measureLengths 0 u).length := along_barColumns u
    linarith

section Layouts

variable {α : Type} [Scalar α]

omit [Scalar α] in
theorem le_measureCount (slots : List (Nat × Slot α)) (n : Nat) :
  n ≤ slots.foldl (fun n (i, _) => max n (i + 1)) n ∧
    ∀ i s, (i, s) ∈ slots → i < slots.foldl (fun n (i, _) => max n (i + 1)) n
  := by
  induction slots generalizing n with
  | nil => exact ⟨le_rfl, nofun⟩
  | cons x slots ih =>
    obtain ⟨hle, hmem⟩ := ih (max n (x.1 + 1))
    constructor
    · apply (Nat.le_max_left _ _).trans hle
    · intro i s h
      obtain rfl | h := List.mem_cons.mp h
      · apply Nat.lt_of_lt_of_le _ hle
        apply Nat.lt_of_lt_of_le (Nat.lt_succ_self i) (Nat.le_max_right _ _)
      · apply hmem i s h

theorem mem_slotsOf_cons {x : Nat × Slot α} {bars : Nat} {time : α} {c : Command}
    {cs : List Command} (h : x ∈ slotsOf (barsAfter bars c) (timeAfter time c) cs) :
  x ∈ slotsOf bars time (c :: cs)
  := by
  obtain ⟨verb, noun⟩ := c
  cases verb with
  | note name =>
    rw [barsAfter_of_isNote rfl, timeAfter] at h
    rw [slotsOf]
    dsimp only at h ⊢
    split
    · rename_i hnone
      rw [if_pos hnone] at h
      apply h
    · rename_i hsome
      rw [if_neg hsome] at h
      apply List.mem_cons_of_mem _ h
  | _ => exact h

/-- A note that has a length takes part in the layout of its measure. -/
theorem exists_mem_slotsOf {bars : Nat} {time : α} {u v : List Command} {c : Command}
    (hnote : c.verb.isNote)
    (hlength : Scalar.atMost (NoteLength.quarters c.noun : α) Scalar.zero = false) :
  ∃ s, (u.foldl barsAfter bars - 1, s) ∈ slotsOf bars time (u ++ c :: v)
  := by
  induction u generalizing bars time with
  | nil =>
    obtain ⟨verb, noun⟩ := c
    cases verb with
    | note name =>
      rw [List.nil_append, slotsOf, hlength]
      exact ⟨_, List.mem_cons_self⟩
    | _ => cases hnote
  | cons d u ih =>
    obtain ⟨s, hs⟩ : ∃ s, (u.foldl barsAfter (barsAfter bars d) - 1, s) ∈
        slotsOf (barsAfter bars d) (timeAfter time d) (u ++ c :: v) := ih
    exact ⟨s, mem_slotsOf_cons hs⟩

/-- The measure of a note that has a length has a layout. -/
theorem lt_length_layoutBlock {lines : List Text} {line : Text} (hline : line ∈ lines)
    {u v : List Command} {c : Command} (hread : Score.read line = .ok (u ++ c :: v))
    (hnote : c.verb.isNote)
    (hlength : Scalar.atMost (NoteLength.quarters c.noun : α) Scalar.zero = false) :
  u.foldl barsAfter 0 - 1 < (layoutBlock lines : List (List (Segment α))).length
  := by
  obtain ⟨s, hs⟩ : ∃ s : Slot α, (u.foldl barsAfter 0 - 1, s) ∈
      slotsOf 0 Scalar.zero (u ++ c :: v) :=
    exists_mem_slotsOf hnote hlength
  have hmem : (u.foldl barsAfter 0 - 1, s) ∈ (blockSlots lines : List (Nat × Slot α)) := by
    rw [blockSlots_eq]
    apply List.mem_flatMap.mpr
    refine ⟨line, hline, ?_⟩
    rw [lineSlots, hread]
    apply hs
  rw [layoutBlock, List.length_map, List.length_range]
  apply (le_measureCount _ 0).2 _ s hmem

end Layouts

/-- On the numbered line of a text, which holds bars and notes that have a length, a note stands
behind the given commands. -/
structure Stands (t : Text) (m : Nat) (before : List Command) (note : Command) : Prop where
  /-- It is a note. -/
  isNote : note.verb.isNote
  /-- The line is read as these commands. -/
  exists_line : ∃ line after, (Text.lines t)[m]? = some line ∧
    Score.read line = .ok (before ++ note :: after) ∧ ∀ c ∈ before ++ note :: after, BarOrNote c

/-- On the numbered line of a text the numbered note begins at a column. -/
def Begins (t : Text) (m k column : Nat) : Prop :=
  ∃ text, (Text.lines t)[m]? = some text ∧ text[column]? = some noteOpening ∧
    (text.take column).count noteOpening = k

/-- In a formatted score a note on a line of bars and notes begins at the column that the lengths of
its measures up to it and the excesses of the notes before it make. -/
theorem exists_begins [Memory] {t t' : Text} (h : formatIn Rat t = .ok t') {first stop m : Nat}
    (hblock : (first, stop) ∈ blocks (Text.lines t)) (hm : first ≤ m ∧ m < stop)
    {u : List Command} {c : Command} (hc : Stands t m u c)
    {layouts : List (List (Segment Rat))}
    (hlayouts : layouts = layoutBlock (((Text.lines t).take stop).drop first)) :
  ∃ i : Nat, Begins t' m (u.countP fun c => c.verb.isNote) i ∧
    (i : Rat) = 2 * (measureLengths 0 u).length - 2 + widthOf layouts 0 (measureLengths 0 u) +
      along (excess layouts) 0 0 u
  := by
  obtain ⟨line, f, hmem, hline, hformat, hkept⟩ := getElem?_lines_of_formatIn h hblock hm.1 hm.2
  rw [← hlayouts] at hformat
  obtain ⟨line', v, hline', hread, hcs⟩ := hc.exists_line
  obtain rfl : line = line' := Option.some.inj (hline.symm.trans hline')
  have hcommands := read_eq_ok.mp hread
  have hone := isLine_of_lines (Text.lines_lines t) line (List.mem_of_getElem? hline)
  have hplain : ∀ d ∈ u ++ c :: v, d.verb ≠ .comment ∧ d.verb ≠ .checkpoint := by
    intro d hd
    obtain hbar | ⟨hnote, -⟩ := hcs d hd
    · rw [hbar]
      exact ⟨nofun, nofun⟩
    · exact ⟨ne_of_isNote hnote rfl, ne_of_isNote hnote rfl⟩
  obtain ⟨-, hcomment | ⟨o, herror⟩⟩ | ⟨cs, w, hread', hw, rfl⟩ := formatLine_eq_ok hformat
  · obtain ⟨noun, hnoun⟩ := commands_of_isCommentLine hcomment hone hcommands
    rw [hnoun] at hplain
    cases (hplain _ List.mem_cons_self).1 rfl
  · rw [hcommands] at herror
    cases herror
  · cases hcommands.symm.trans hread'
    have hshaped := (shapedLine_of_commands hone hcommands).shaped
    have hlength : 0 < (NoteLength.quarters c.noun : Rat) := by
      obtain hbar | ⟨-, hlength⟩ := hcs c (by simp)
      · cases ne_of_isNote hc.isNote rfl hbar
      · exact hlength
    have hlayout : u.foldl barsAfter 0 - 1 < layouts.length := by
      rw [hlayouts]
      apply lt_length_layoutBlock hmem hread hc.isNote
      apply Scalar.atMost_rat_eq_false_iff.mpr hlength
    obtain ⟨i, hopening, hcount, hi⟩ := column_of_renderLine hcs hshaped hc.isNote hlayout hw
    obtain ⟨hlt, -⟩ := List.getElem?_eq_some_iff.mp hopening
    refine ⟨i, ⟨w ++ lineEndOf line, hkept ?_ ?_, ?_, ?_⟩, hi⟩
    · apply Bool.eq_false_iff.mpr
      intro hcheckpoint
      obtain ⟨d, hd, hverb⟩ := (isCheckpointLine_written (written_of_renderLine hshaped hw)
        (lineEnd_lineEndOf line)).mp hcheckpoint
      apply (hplain d (List.mem_of_head? hd)).2 hverb
    · intro hnil
      rw [(List.append_eq_nil_iff.mp hnil).1] at hlt
      cases hlt
    · rw [List.getElem?_append_left hlt, hopening]
    · rw [List.take_append_of_le_length hlt.le, hcount]

/-- In exact arithmetic two notes of a block whose measures have the same lengths up to them, so
that they start at the same time of the same measure, begin as far apart as the excesses before them
differ, and at one column exactly if these agree. -/
theorem column_sub_column_eq [Memory] {t t' : Text} (h : formatIn Rat t = .ok t')
    {first stop m n : Nat} (hblock : (first, stop) ∈ blocks (Text.lines t))
    (hm : first ≤ m ∧ m < stop) (hn : first ≤ n ∧ n < stop) {u w : List Command} {c d : Command}
    (hc : Stands t m u c) (hd : Stands t n w d)
    (hlengths : measureLengths 0 u = measureLengths 0 w) :
  let total := along (excess (layoutBlock (((Text.lines t).take stop).drop first))) 0 0
  ∃ i j : Nat, Begins t' m (u.countP fun c => c.verb.isNote) i ∧
    Begins t' n (w.countP fun c => c.verb.isNote) j ∧
    (i : Rat) - j = total u - total w ∧ (i = j ↔ total u = total w)
  := by
  obtain ⟨i, hi, hcolumn⟩ := exists_begins h hblock hm hc rfl
  obtain ⟨j, hj, hcolumn'⟩ := exists_begins h hblock hn hd rfl
  rw [hlengths] at hcolumn
  refine ⟨i, j, hi, hj, ?_, ?_⟩
  · rw [hcolumn, hcolumn']
    ring
  · rw [← Nat.cast_inj (R := Rat), hcolumn, hcolumn']
    apply add_right_inj

/-- The note of middle C of a length. -/
def middleC (noun : String) : Command := ⟨.note "Cn_4".toList, noun.toList⟩

/-- A bar and notes of the given lengths behind it. -/
def measureOf (nouns : List String) : List Command := ⟨.measure, ['|']⟩ :: nouns.map middleC

/-- A block of a voice in quarter notes, and one that starts with a half note. -/
def quarterVoices : Text :=
  "| (Cn_4 1/4)(Cn_4 1/4)(Cn_4 1/4)\n| (Cn_4 1/2)(Cn_4 1/4)".toList

attribute [local instance] Memory.sixteenGigabytes in
/-- The last notes of these voices begin at one column. -/
theorem column_sub_column_eq_quarterVoices :
  ∃ t', formatIn Rat quarterVoices = .ok t' ∧ (0, 2) ∈ blocks (Text.lines quarterVoices) ∧
    Stands quarterVoices 0 (measureOf ["1/4", "1/4"]) (middleC "1/4") ∧
    Stands quarterVoices 1 (measureOf ["1/2"]) (middleC "1/4") ∧
    measureLengths 0 (measureOf ["1/4", "1/4"]) = measureLengths 0 (measureOf ["1/2"]) ∧
    ∃ i, Begins t' 0 2 i ∧ Begins t' 1 1 i
  := by
  have hformat : formatIn Rat quarterVoices =
      .ok "| (Cn_4 1/4)  (Cn_4 1/4)  (Cn_4 1/4)\n| (Cn_4 1/2) ------------ (Cn_4 1/4)".toList := by
    decide +kernel
  have hblock : (0, 2) ∈ blocks (Text.lines quarterVoices) := by decide +kernel
  have hc : Stands quarterVoices 0 (measureOf ["1/4", "1/4"]) (middleC "1/4") :=
    ⟨rfl, "| (Cn_4 1/4)(Cn_4 1/4)(Cn_4 1/4)\n".toList, [], by decide +kernel, by decide +kernel,
      by decide +kernel⟩
  have hd : Stands quarterVoices 1 (measureOf ["1/2"]) (middleC "1/4") :=
    ⟨rfl, "| (Cn_4 1/2)(Cn_4 1/4)".toList, [], by decide +kernel, by decide +kernel,
      by decide +kernel⟩
  have hlengths : measureLengths 0 (measureOf ["1/4", "1/4"]) =
      measureLengths 0 (measureOf ["1/2"]) := by
    decide +kernel
  obtain ⟨i, j, hi, hj, -, heq⟩ := column_sub_column_eq hformat hblock (by decide) (by decide) hc hd
    hlengths
  have htotal : along (excess (layoutBlock (((Text.lines quarterVoices).take 2).drop 0))) 0 0
      (measureOf ["1/4", "1/4"]) =
        along (excess (layoutBlock (((Text.lines quarterVoices).take 2).drop 0))) 0 0
          (measureOf ["1/2"]) := by
    decide +kernel
  obtain rfl := heq.mpr htotal
  exact ⟨_, hformat, hblock, hc, hd, hlengths, i, hi, hj⟩

/-- A block of a voice in sixteenths, and one that starts with a note of half that length. -/
def sixteenthVoices : Text :=
  "| (Cn_4 1/16)(Cn_4 1/16)(Cn_4 1/16)\n| (Cn_4 1/32)(Cn_4 1/16)(Cn_4 1/32)(Cn_4 1/16)".toList

attribute [local instance] Memory.sixteenGigabytes in
/-- The last notes of these voices start at the same time, but not at the same column: two widths of
nineteen columns and a half are rounded up on one line, and three of thirteen are not on the
other. -/
theorem not_column_sub_column_eq_sixteenthVoices :
  ∃ t', formatIn Rat sixteenthVoices = .ok t' ∧ (0, 2) ∈ blocks (Text.lines sixteenthVoices) ∧
    Stands sixteenthVoices 0 (measureOf ["1/16", "1/16"]) (middleC "1/16") ∧
    Stands sixteenthVoices 1 (measureOf ["1/32", "1/16", "1/32"]) (middleC "1/16") ∧
    measureLengths 0 (measureOf ["1/16", "1/16"]) =
      measureLengths 0 (measureOf ["1/32", "1/16", "1/32"]) ∧
    ¬∃ i, Begins t' 0 2 i ∧ Begins t' 1 3 i
  := by
  have hformat : formatIn Rat sixteenthVoices = .ok
      ("| (Cn_4 1/16) ------- (Cn_4 1/16) ------- (Cn_4 1/16)\n" ++
        "| (Cn_4 1/32)  (Cn_4 1/16)  (Cn_4 1/32)  (Cn_4 1/16)").toList := by
    decide +kernel
  refine ⟨_, hformat, by decide +kernel, ?_, ?_, by decide +kernel, ?_⟩
  · exact ⟨rfl, "| (Cn_4 1/16)(Cn_4 1/16)(Cn_4 1/16)\n".toList, [], by decide +kernel,
      by decide +kernel, by decide +kernel⟩
  · exact ⟨rfl, "| (Cn_4 1/32)(Cn_4 1/16)(Cn_4 1/32)(Cn_4 1/16)".toList, [], by decide +kernel,
      by decide +kernel, by decide +kernel⟩
  · rintro ⟨i, ⟨line, hline, hopening, hcount⟩, ⟨line', hline', hopening', hcount'⟩⟩
    obtain rfl : "| (Cn_4 1/16) ------- (Cn_4 1/16) ------- (Cn_4 1/16)\n".toList = line := by
      apply Option.some.inj (Eq.trans _ hline)
      decide +kernel
    obtain rfl : "| (Cn_4 1/32)  (Cn_4 1/16)  (Cn_4 1/32)  (Cn_4 1/16)".toList = line' := by
      apply Option.some.inj (Eq.trans _ hline')
      decide +kernel
    obtain ⟨hlt, -⟩ := List.getElem?_eq_some_iff.mp hopening
    have hnone : ∀ i < 54, ¬("| (Cn_4 1/16) ------- (Cn_4 1/16) ------- (Cn_4 1/16)\n".toList[i]? =
        some noteOpening ∧ "| (Cn_4 1/32)  (Cn_4 1/16)  (Cn_4 1/32)  (Cn_4 1/16)".toList[i]? =
        some noteOpening ∧ ("| (Cn_4 1/16) ------- (Cn_4 1/16) ------- (Cn_4 1/16)\n".toList.take
        i).count noteOpening = 2) := by
      decide +kernel
    exact hnone i hlt ⟨hopening, hopening', hcount⟩

end Layout

end Tunescript
