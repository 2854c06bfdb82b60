import Tunescript.Proofs.Layout.Written

/-!
# The room for a line

Every command of a line takes a number of columns (`commandColumns`), the length of the piece that
is written for it (`commandColumns_of_piece`).  A line can be rendered exactly if every note on it
has a number of columns and memory holds the columns of all commands together
(`exists_renderLine_iff`).
-/

namespace Tunescript.Layout

open Score (bind_eq_ok map_eq_ok)

theorem exists_bind_iff {ε β γ : Type} {o : Except ε β} {f : β → Except ε γ} :
  (∃ c, o >>= f = .ok c) ↔ ∃ b, o = .ok b ∧ ∃ c, f b = .ok c
  := by
  constructor
  · rintro ⟨c, hc⟩
    obtain ⟨b, hb, hc⟩ := bind_eq_ok hc
    exact ⟨b, hb, c, hc⟩
  · rintro ⟨b, rfl, c, hc⟩
    exact ⟨c, hc⟩

/-- The columns of a note that is padded to a number of columns: those of its text and of one or two
spaces, and of dashes in what is left if a command follows. -/
def paddedColumns (token : Text) (columns : Int) (hasNext : Bool) : Nat :=
  let slack := (columns - token.length).toNat
  if slack < spacesAroundDashes then token.length + 1
  else token.length + spacesAroundDashes + if hasNext then slack - spacesAroundDashes else 0

section Columns

variable {α : Type} [Scalar α] (layouts : List (List (Segment α)))

/-- The columns that a command takes, after the given number of bars and at the given time. -/
def commandColumns (bars : Nat) (time : α) (c : Command) (hasNext : Bool) :
    Except ArithmeticFault Nat :=
  match c.verb with
  | .note name =>
    if Scalar.atMost (NoteLength.quarters c.noun : α) Scalar.zero then
      .ok ((token name c.noun).length + 1)
    else
      (target layouts (bars - 1) time (NoteLength.quarters c.noun) (token name c.noun)).map
        fun columns => paddedColumns (token name c.noun) columns hasNext
  | _ => .ok (controlText c).length

/-- The columns that the commands of a line take, after the given number of bars and at the given
time. -/
def lineColumns (bars : Nat) (time : α) : List Command → Except ArithmeticFault Nat
  | [] => .ok 0
  | c :: cs => do
    let n ← commandColumns layouts bars time c (!cs.isEmpty)
    let rest ← lineColumns (barsAfter bars c) (timeAfter time c) cs
    return n + rest

/-- A note has a number of columns, after the given number of bars and at the given time. -/
def HasColumns (bars : Nat) (time : α) (c : Command) : Prop :=
  ∀ name, c.verb = .note name →
    Scalar.atMost (NoteLength.quarters c.noun : α) Scalar.zero = false →
    ∃ columns, target layouts (bars - 1) time (NoteLength.quarters c.noun) (token name c.noun) =
      .ok columns

variable [Memory]

/-- Memory holds the columns of all commands of a line. -/
def LineFits (cs : List Command) : Prop :=
  ∀ n, lineColumns layouts 0 Scalar.zero cs = .ok n → n < Memory.size

/-- There is room for the commands of a line. -/
structure Room (cs : List Command) : Prop where
  /-- Every note has a number of columns, after the bars and at the time that those before it
  make. -/
  columns : ∀ before c after, cs = before ++ c :: after →
    HasColumns layouts (before.foldl barsAfter 0) (before.foldl timeAfter Scalar.zero) c
  /-- Memory holds the columns of all commands. -/
  fits : LineFits layouts cs

end Columns

section Counting

variable {α : Type} [Scalar α] {layouts : List (List (Segment α))} {bars : Nat} {time : α}

theorem exists_commandColumns_iff (c : Command) (hasNext : Bool) :
  (∃ n, commandColumns layouts bars time c hasNext = .ok n) ↔ HasColumns layouts bars time c
  := by
  obtain ⟨verb, noun⟩ := c
  cases verb with
  | note name =>
    simp only [commandColumns, HasColumns, Verb.note.injEq, forall_eq']
    split
    · rename_i hnone
      simp [hnone]
    · rename_i hsome
      cases target layouts (bars - 1) time (NoteLength.quarters noun) (token name noun) with
      | error f => simp [hsome, Except.map]
      | ok columns => simp [Except.map]
  | _ => simp [commandColumns, HasColumns]

/-- The columns of a line are counted exactly if every note on it has a number of columns. -/
theorem exists_lineColumns_iff {cs : List Command} :
  (∃ n, lineColumns layouts bars time cs = .ok n) ↔ ∀ before c after, cs = before ++ c :: after →
    HasColumns layouts (before.foldl barsAfter bars) (before.foldl timeAfter time) c
  := by
  induction cs generalizing bars time with
  | nil => simp [lineColumns]
  | cons c cs ih =>
    have hcons : (∃ n, lineColumns layouts bars time (c :: cs) = .ok n) ↔
        HasColumns layouts bars time c ∧
          ∃ n, lineColumns layouts (barsAfter bars c) (timeAfter time c) cs = .ok n := by
      rw [lineColumns, exists_bind_iff, ← exists_commandColumns_iff c (!cs.isEmpty)]
      simp [exists_bind_iff, pure, Except.pure]
    rw [hcons, ih]
    constructor
    · rintro ⟨hc, hcs⟩ before d after h
      obtain _ | ⟨e, before⟩ := before
      · obtain ⟨⟩ := h
        apply hc
      · obtain ⟨⟩ := h
        apply hcs before d after rfl
    · intro h
      use h [] c cs rfl
      rintro before d after rfl
      apply h (c :: before) d after rfl

variable [Memory]

theorem length_pad {t p : Text} {columns : Int} {hasNext : Bool}
    (h : pad t columns hasNext = .ok p) :
  p.length = paddedColumns t columns hasNext
  := by
  rw [pad] at h
  rw [paddedColumns]
  split at h
  · rename_i hslack
    cases h
    rw [if_pos hslack, List.length_append, List.length_singleton]
  · rename_i hslack
    obtain ⟨dashes, hdashes, h⟩ := bind_eq_ok h
    cases h
    obtain rfl := Capacity.eq_of_ofText hdashes
    rw [if_neg hslack]
    cases hasNext with
    | false => simp [spacesAroundDashes]
    | true =>
      simp [spacesAroundDashes]
      omega

/-- A note can be padded if memory holds its columns. -/
theorem exists_pad {t : Text} {columns : Int} {hasNext : Bool}
    (h : paddedColumns t columns hasNext < Memory.size) :
  ∃ p, pad t columns hasNext = .ok p
  := by
  rw [paddedColumns] at h
  rw [pad]
  split
  · exact ⟨_, rfl⟩
  · rename_i hslack
    rw [if_neg hslack] at h
    rw [exists_bind_iff]
    simp only [pure, Except.pure, Except.ok.injEq, exists_eq', and_true]
    cases hasNext with
    | false => exact (Capacity.exists_ofText_iff 0).mpr (by omega)
    | true => exact (Capacity.exists_ofText_iff _).mpr (by simp at h ⊢; omega)

/-- A command takes as many columns as its piece has characters. -/
theorem commandColumns_of_piece {c : Command} {hasNext : Bool} {p : Text}
    (h : piece layouts bars time c hasNext = .ok p) :
  commandColumns layouts bars time c hasNext = .ok p.length
  := by
  obtain ⟨verb, noun⟩ := c
  cases verb with
  | note name =>
    rw [piece] at h
    rw [commandColumns]
    dsimp only at h ⊢
    split at h
    · rename_i hnone
      cases h
      rw [if_pos hnone, List.length_append, List.length_singleton]
    · rename_i hsome
      obtain ⟨columns, hcolumns, hpad⟩ := bind_eq_ok h
      rw [if_neg hsome, hcolumns, length_pad hpad]
      rfl
  | _ =>
    cases h
    rfl

theorem exists_piece {c : Command} {hasNext : Bool} {n : Nat}
    (h : commandColumns layouts bars time c hasNext = .ok n) (hn : n < Memory.size) :
  ∃ p, piece layouts bars time c hasNext = .ok p
  := by
  obtain ⟨verb, noun⟩ := c
  cases verb with
  | note name =>
    rw [commandColumns] at h
    rw [piece]
    dsimp only at h ⊢
    split at h
    · rename_i hnone
      rw [if_pos hnone]
      exact ⟨_, rfl⟩
    · rename_i hsome
      obtain ⟨columns, hcolumns, rfl⟩ := map_eq_ok h
      rw [if_neg hsome, exists_bind_iff]
      exact ⟨columns, hcolumns, exists_pad hn⟩
  | _ => exact ⟨_, rfl⟩

theorem lineColumns_of_pieces {cs : List Command} {ps : List Text}
    (h : pieces layouts bars time cs = .ok ps) :
  lineColumns layouts bars time cs = .ok ps.flatten.length
  := by
  induction cs generalizing bars time ps with
  | nil =>
    cases h
    rfl
  | cons c cs ih =>
    obtain ⟨p, qs, hp, hqs, rfl⟩ := pieces_cons_eq_ok h
    rw [lineColumns, commandColumns_of_piece hp, ih hqs, List.flatten_cons, List.length_append]
    rfl

theorem exists_pieces {cs : List Command} {n : Nat}
    (h : lineColumns layouts bars time cs = .ok n) (hn : n < Memory.size) :
  ∃ ps, pieces layouts bars time cs = .ok ps
  := by
  induction cs generalizing bars time n with
  | nil => exact ⟨[], rfl⟩
  | cons c cs ih =>
    obtain ⟨m, hm, h⟩ := bind_eq_ok h
    obtain ⟨rest, hrest, h⟩ := bind_eq_ok h
    cases h
    obtain ⟨p, hp⟩ := exists_piece hm (by omega)
    obtain ⟨ps, hps⟩ := ih hrest (by omega)
    use p :: ps
    rw [pieces_cons, hp, hps]
    rfl

/-- A line can be rendered exactly if there is room for its commands. -/
theorem exists_renderLine_iff {cs : List Command} :
  (∃ w, renderLine cs layouts = .ok w) ↔ Room layouts cs
  := by
  constructor
  · rintro ⟨w, hw⟩
    obtain ⟨ps, hps, hfits, -⟩ := renderLine_eq_ok_iff.mp hw
    have hcolumns := lineColumns_of_pieces hps
    constructor
    · exact exists_lineColumns_iff.mp ⟨_, hcolumns⟩
    · intro n hn
      cases hcolumns.symm.trans hn
      exact hfits
  · rintro ⟨hcolumns, hfits⟩
    obtain ⟨n, hn⟩ := exists_lineColumns_iff.mpr hcolumns
    obtain ⟨ps, hps⟩ := exists_pieces hn (hfits n hn)
    cases hn.symm.trans (lineColumns_of_pieces hps)
    exact ⟨_, renderLine_eq_ok_iff.mpr ⟨ps, hps, hfits _ hn, rfl⟩⟩

end Counting

end Tunescript.Layout
