import Mathlib.Order.Bounds.Basic
import Tunescript.Preview.Score
import Tunescript.Proofs.Editor.BufferText
import Tunescript.Proofs.Text.Trim

/-!
# The latest lines

A section starts at the last checkpoint line up to the cursor (`lastCheckpoint?_eq_some_iff`), and
its context consists of the lines above it that are the last of their kind there (`latest_context`):
the last one that sets the tempo, the last that sets the time signature and the last that sets the
voice, which need not be three. A search that goes up line by line until nothing is missing, and
turns what it has found round at the end, comes to the same section (`searchSection_eq`).
-/

namespace Tunescript

open Score
open Text (rows)

namespace Score

variable {line : Text}

theorem isTempoLine_trim (line : Text) :
  isTempoLine (Text.trim line) = isTempoLine line
  := by
  have hblank : "_bpm".toList.all fun c => !Text.isBlank c := by
    decide
  simp only [List.all_eq_true, Bool.not_eq_true'] at hblank
  rw [Bool.eq_iff_iff, isTempoLine, isTempoLine, Text.occursIn_iff, Text.occursIn_iff,
    Text.infix_trim_iff hblank]

theorem isTimeLine_trim (line : Text) :
  isTimeLine (Text.trim line) = isTimeLine line
  := by
  have hcontains {c : Char} (hc : Text.isBlank c = false) :
      (Text.trim line).contains c = line.contains c := by
    rw [Bool.eq_iff_iff, List.contains_iff_mem, List.contains_iff_mem, Text.mem_trim_iff hc]
  rw [isTimeLine, isTimeLine, hcontains rfl, hcontains rfl, hcontains rfl]

theorem isVoiceLine_trim (line : Text) :
  isVoiceLine (Text.trim line) = isVoiceLine line
  := by
  rw [isVoiceLine, isVoiceLine, opensWith, opensWith,
    Text.trimStart_eq_self (Text.trimmed_trim line).head, Text.head?_trim]

end Score

namespace Preview

section LastOf

variable {kind : Text → Bool} {ls : List Text} {l : Text} {i : Nat}

/-- The numbers of the lines of a kind. -/
def linesOf (kind : Text → Bool) (ls : List Text) : Set Nat := {j | ∃ l, ls[j]? = some l ∧ kind l}

/-- The last line of a kind has this number. -/
def LastOf (kind : Text → Bool) (ls : List Text) (i : Nat) : Prop := IsGreatest (linesOf kind ls) i

theorem lt_length_of_mem_linesOf (h : i ∈ linesOf kind ls) :
  i < ls.length
  := by
  obtain ⟨l, hl, -⟩ := h
  apply (List.getElem?_eq_some_iff.mp hl).1

theorem LastOf.lt_length_of_take {n : Nat} (h : LastOf kind (ls.take n) i) :
  i < ls.length
  := Nat.lt_of_lt_of_le (lt_length_of_mem_linesOf h.1) (List.length_take_le' _ _)

theorem mem_linesOf_concat :
  i ∈ linesOf kind (ls ++ [l]) ↔ i ∈ linesOf kind ls ∨ (kind l ∧ i = ls.length)
  := by
  obtain hlt | rfl | hgt := Nat.lt_trichotomy i ls.length
  · simp [linesOf, List.getElem?_append_left hlt, Nat.ne_of_lt hlt]
  · simp [linesOf]
  · have hnone : (ls ++ [l])[i]? = none :=
      List.getElem?_eq_none (by simpa using Nat.succ_le_of_lt hgt)
    simp [linesOf, hnone, List.getElem?_eq_none (Nat.le_of_lt hgt), Nat.ne_of_gt hgt]

/-- A line behind the others is the last of its kinds, and the lines of other kinds stay as they
are. -/
theorem lastOf_concat :
  LastOf kind (ls ++ [l]) i ↔ (kind l ∧ i = ls.length) ∨ (kind l = false ∧ LastOf kind ls i)
  := by
  by_cases hl : kind l
  · have hlast : LastOf kind (ls ++ [l]) ls.length := by
      constructor
      · apply mem_linesOf_concat.mpr (.inr ⟨hl, rfl⟩)
      · intro j hj
        obtain hj | ⟨-, rfl⟩ := mem_linesOf_concat.mp hj
        · apply Nat.le_of_lt (lt_length_of_mem_linesOf hj)
        · apply Nat.le_refl
    constructor
    · intro h
      exact .inl ⟨hl, h.unique hlast⟩
    · rintro (⟨-, rfl⟩ | ⟨hnot, -⟩)
      · apply hlast
      · rw [hl] at hnot
        cases hnot
  · have hsame : linesOf kind (ls ++ [l]) = linesOf kind ls := by
      ext j
      simp [mem_linesOf_concat, hl]
    simp [LastOf, hsame, hl]

/-- Looking for a line of a kind from the last one upwards finds the last line of the kind. -/
theorem findIdx?_eq_some_iff_lastOf (ls : List Text) :
  (ls.reverse.findIdx? kind).map (fun k => ls.length - 1 - k) = some i ↔ LastOf kind ls i
  := by
  induction ls using List.reverseRecOn with
  | nil => simp [LastOf, IsGreatest, linesOf]
  | append_singleton ls l ih =>
    rw [List.reverse_append, List.reverse_singleton, List.singleton_append, List.findIdx?_cons,
      lastOf_concat, List.length_append, List.length_singleton]
    by_cases hl : kind l
    · simp [hl, eq_comm]
    · simp [hl, ← ih, Nat.sub_sub, Nat.add_comm 1]

/-- The last checkpoint line among the first lines is found if there is one. -/
theorem lastCheckpoint?_eq_some_iff (ls : List Text) (count : Nat) :
  lastCheckpoint? ls count = some i ↔ LastOf isCheckpointLine (ls.take count) i
  := findIdx?_eq_some_iff_lastOf (ls.take count)

theorem lastCheckpoint?_succ {n : Nat} (h : ls[n]? = some l) :
  lastCheckpoint? ls (n + 1) = if isCheckpointLine l then some n else lastCheckpoint? ls n
  := by
  have hlt := (List.getElem?_eq_some_iff.mp h).1
  have hlength : (ls.take n).length = n := List.length_take_of_le (Nat.le_of_lt hlt)
  ext i
  rw [lastCheckpoint?_eq_some_iff, List.take_add_one, h, Option.toList_some, lastOf_concat, hlength]
  split
  · rename_i hl
    simp [hl, eq_comm]
  · rename_i hl
    simp [hl, lastCheckpoint?_eq_some_iff]

end LastOf

section Latest

variable {ls : List Text} {i : Nat}

/-- The numbers, in order, of the lines that set the tempo, the time signature or the voice last. -/
structure Latest (ls : List Text) (is : List Nat) : Prop where
  /-- The numbers increase. -/
  increasing : is.Pairwise (· < ·)
  /-- They are those of the last line of each kind. -/
  mem_iff : ∀ i, i ∈ is ↔ LastOf isTempoLine ls i ∨ LastOf isTimeLine ls i ∨ LastOf isVoiceLine ls i

/-- The line is the last of its kind, and the kind has not been found yet. -/
def Wanted (found : Bool) (kind : Text → Bool) (ls : List Text) (i : Nat) : Prop :=
  found = false ∧ LastOf kind ls i

theorem wanted_concat (found : Bool) (kind : Text → Bool) (l : Text) :
  Wanted found kind (ls ++ [l]) i ↔
    ((!found && kind l) ∧ i = ls.length) ∨ Wanted (found || (!found && kind l)) kind ls i
  := by
  rw [Wanted, Wanted, lastOf_concat]
  cases found <;> cases kind l <;> simp

/-- The context consists of the last lines of the kinds that have not been found yet. -/
theorem exists_contextOf (tempo time voice : Bool) (ls : List Text) :
  ∃ is : List Nat, is.Pairwise (· < ·) ∧
    (∀ i, i ∈ is ↔ Wanted tempo isTempoLine ls i ∨ Wanted time isTimeLine ls i ∨
      Wanted voice isVoiceLine ls i) ∧
    contextOf tempo time voice ls.reverse = is.filterMap (ls[·]?)
  := by
  induction ls using List.reverseRecOn generalizing tempo time voice with
  | nil =>
    refine ⟨[], List.Pairwise.nil, ?_, rfl⟩
    simp [Wanted, LastOf, IsGreatest, linesOf]
  | append_singleton ls l ih =>
    -- The last line is looked at first, and what it sets counts as found above it.
    obtain ⟨is, hincreasing, hmem, hcontext⟩ := ih (tempo || (!tempo && isTempoLine l))
      (time || (!time && isTimeLine l)) (voice || (!voice && isVoiceLine l))
    have hlt (i : Nat) (hi : i ∈ is) : i < ls.length := by
      obtain ⟨-, h⟩ | ⟨-, h⟩ | ⟨-, h⟩ := (hmem i).mp hi <;> apply lt_length_of_mem_linesOf h.1
    have hlines : is.filterMap ((ls ++ [l])[·]?) = is.filterMap (ls[·]?) := by
      apply List.filterMap_congr
      intro i hi
      apply List.getElem?_append_left (hlt i hi)
    rw [List.reverse_append, List.reverse_singleton, List.singleton_append, contextOf, hcontext]
    simp only [wanted_concat]
    split
    · rename_i hnew
      refine ⟨is ++ [ls.length], ?_, ?_, ?_⟩
      · apply List.pairwise_append.mpr
        refine ⟨hincreasing, List.pairwise_singleton _ _, ?_⟩
        intro i hi j hj
        rw [List.mem_singleton.mp hj]
        apply hlt i hi
      · intro i
        rw [List.mem_append, hmem, List.mem_singleton]
        simp only [Bool.or_eq_true] at hnew
        tauto
      · rw [List.filterMap_append, hlines]
        simp
    · rename_i hnew
      refine ⟨is, hincreasing, ?_, hlines.symm⟩
      intro i
      rw [hmem]
      simp only [Bool.or_eq_true] at hnew
      tauto

/-- The context of a section consists of the lines above it that are the last of their kind
there. -/
theorem latest_context (ls : List Text) (stop : Nat) :
  ∃ is, Latest (ls.take stop) is ∧ context ls stop = is.filterMap (ls[·]?)
  := by
  obtain ⟨is, hincreasing, hmem, hcontext⟩ := exists_contextOf false false false (ls.take stop)
  simp only [Wanted, true_and] at hmem
  refine ⟨is, ⟨hincreasing, hmem⟩, ?_⟩
  rw [context, hcontext]
  apply List.filterMap_congr
  intro i hi
  have hlt : i < (ls.take stop).length := by
    obtain h | h | h := (hmem i).mp hi <;> apply lt_length_of_mem_linesOf h.1
  apply List.getElem?_take_of_lt
  rw [List.length_take] at hlt
  omega

end Latest

/-- The score of a section depends on the line of the cursor only. -/
theorem sectionScore_eq {t : Text} {cursor : Int} {n : Nat}
    (h : (Buffer.ofText t).lineAt cursor = .ok n) :
  sectionScore t cursor = .ok ((lastCheckpoint? (rows t) (n + 1)).elim t fun c =>
    (context (rows t) c).flatten ++ ((rows t).drop c).flatten)
  := by
  rw [sectionScore, checkpointAbove, h, Buffer.lines_ofText]
  simp only [bind, Except.bind, pure, Except.pure]
  cases lastCheckpoint? (rows t) (n + 1) with
  | none => rfl
  | some c => exact congrArg Except.ok List.flatten_append

section Search

/-- The number of the first checkpoint line that is found upwards. -/
def searchCheckpoint (b : Buffer) : Nat → Except BufferError (Option Nat)
  | 0 => return none
  | i + 1 => do
    if isCheckpointLine (← b.line i) then return some i
    searchCheckpoint b i

/-- The lines that are found upwards to set something first, behind those found before, until
nothing is missing. -/
def searchContext (b : Buffer) (tempo time voice : Bool) (found : List Text) :
    Nat → Except BufferError (List Text)
  | 0 => return found
  | i + 1 => do
    if tempo && time && voice then return found
    let line ← b.line i
    let newTempo := !tempo && isTempoLine (Text.trim line)
    let newTime := !time && isTimeLine (Text.trim line)
    let newVoice := !voice && isVoiceLine (Text.trim line)
    searchContext b (tempo || newTempo) (time || newTime) (voice || newVoice)
      (if newTempo || newTime || newVoice then found ++ [line] else found) i

/-- The score of the section at a cursor, by searching upwards from there. -/
def searchSection (t : Text) (cursor : Int) : Except BufferError Text := do
  let b := Buffer.ofText t
  match ← searchCheckpoint b ((← b.lineAt cursor) + 1) with
  | none => return t
  | some i =>
    let found ← searchContext b false false false [] i
    return found.reverse.flatten ++ b.slice (← b.lineStart i) none

variable {b : Buffer} {n : Nat}

theorem searchCheckpoint_eq (hn : n ≤ b.lineCount) :
  searchCheckpoint b n = .ok (lastCheckpoint? b.lines n)
  := by
  induction n with
  | zero => rfl
  | succ n ih =>
    obtain ⟨l, hl, hget⟩ : ∃ l, b.line n = .ok l ∧ b.lines[n]? = some l := b.line_eq_ok hn
    rw [searchCheckpoint, hl, lastCheckpoint?_succ hget, ih (Nat.le_of_succ_le hn)]
    simp only [bind, Except.bind]
    split
    · rfl
    · rfl

/-- Nothing is found any more when nothing is missing. -/
theorem contextOf_found (ls : List Text) :
  contextOf true true true ls = []
  := by
  induction ls with
  | nil => rfl
  | cons l ls ih => simpa [contextOf] using ih

theorem searchContext_eq (hn : n ≤ b.lineCount) (tempo time voice : Bool) (found : List Text) :
  searchContext b tempo time voice found n =
    .ok (found ++ (contextOf tempo time voice (b.lines.take n).reverse).reverse)
  := by
  induction n generalizing tempo time voice found with
  | zero => simp [searchContext, contextOf, pure, Except.pure]
  | succ n ih =>
    obtain ⟨l, hl, hget⟩ : ∃ l, b.line n = .ok l ∧ b.lines[n]? = some l := b.line_eq_ok hn
    have hlines : (b.lines.take (n + 1)).reverse = l :: (b.lines.take n).reverse := by
      rw [List.take_add_one, hget, Option.toList_some, List.reverse_append]
      rfl
    rw [searchContext, hlines]
    split
    · rename_i hfound
      simp only [Bool.and_eq_true] at hfound
      obtain ⟨⟨rfl, rfl⟩, rfl⟩ := hfound
      rw [contextOf_found, List.reverse_nil, List.append_nil]
      rfl
    · rw [hl]
      simp only [bind, Except.bind, isTempoLine_trim, isTimeLine_trim, isVoiceLine_trim]
      rw [ih (Nat.le_of_succ_le hn), contextOf]
      split
      · rw [List.reverse_append, List.append_assoc]
        rfl
      · rfl

/-- Searching upwards comes to the section that starts at the last checkpoint line, with its
context. -/
theorem searchSection_eq (t : Text) (cursor : Int) :
  searchSection t cursor = sectionScore t cursor
  := by
  rw [searchSection]
  cases hline : (Buffer.ofText t).lineAt cursor with
  | error e =>
    rw [sectionScore, checkpointAbove, hline]
    rfl
  | ok n =>
    have hn := Buffer.lt_lineCount_of_lineAt hline
    rw [sectionScore_eq hline, ← Buffer.lines_ofText]
    simp only [bind, Except.bind, pure, Except.pure, searchCheckpoint_eq hn]
    cases hlast : lastCheckpoint? (Buffer.ofText t).lines (n + 1) with
    | none => rfl
    | some c =>
      have hlt : c < (Buffer.ofText t).lineCount :=
        ((lastCheckpoint?_eq_some_iff _ _).mp hlast).lt_length_of_take
      simp only [searchContext_eq (Nat.le_of_lt hlt), Buffer.lineStart_eq_ok _ hlt]
      rw [List.nil_append, List.reverse_reverse, Buffer.slice, Text.slice_rowsBefore_none,
        Text.drop_rowsBefore]
      rfl

end Search

/-- The section at a cursor in the text starts at the last checkpoint line up to the cursor, behind
those lines above it that set the tempo, the time signature or the voice last, each of them once and
in order; without a checkpoint line it is the whole text.  Searching upwards comes to the same. -/
theorem sectionScore_latest (t : Text) {cursor : Int} (hcursor : 0 ≤ cursor ∧ cursor ≤ t.length) :
  searchSection t cursor = sectionScore t cursor ∧
    ∃ n, (Buffer.ofText t).lineAt cursor = .ok n ∧
      (∀ c, LastOf isCheckpointLine ((rows t).take (n + 1)) c →
        ∃ is start, Latest ((rows t).take c) is ∧ (Buffer.ofText t).lineStart c = .ok start ∧
          sectionScore t cursor = .ok ((is.filterMap ((rows t)[·]?)).flatten ++ t.drop start)) ∧
      ((∀ c, ¬LastOf isCheckpointLine ((rows t).take (n + 1)) c) → sectionScore t cursor = .ok t)
  := by
  have htext := Buffer.text_ofText t
  obtain ⟨k, rfl⟩ := Int.eq_ofNat_of_zero_le hcursor.1
  have hk : k ≤ (Buffer.ofText t).length := by
    rw [Buffer.length, htext]
    apply Int.ofNat_le.mp hcursor.2
  have hline := (Buffer.ofText t).lineAt_eq_ok hk
  refine ⟨searchSection_eq t k, _, hline, ?_, ?_⟩
  · intro c hc
    have hlt : c < (Buffer.ofText t).lineCount := by
      rw [Buffer.lineCount, Buffer.lines_ofText]
      apply hc.lt_length_of_take
    obtain ⟨is, his, hcontext⟩ := latest_context (rows t) c
    refine ⟨is, _, his, (Buffer.ofText t).lineStart_eq_ok hlt, ?_⟩
    rw [sectionScore_eq hline, (lastCheckpoint?_eq_some_iff _ _).mpr hc, htext,
      Text.drop_rowsBefore, ← hcontext]
    rfl
  · intro hnone
    have hlast : lastCheckpoint? (rows t) (((Buffer.ofText t).text.take k).count '\n' + 1) =
        none := by
      apply Option.eq_none_iff_forall_ne_some.mpr
      intro c hc
      apply hnone c ((lastCheckpoint?_eq_some_iff _ _).mp hc)
    rw [sectionScore_eq hline, hlast]
    rfl

/-- A score whose first voice line is superseded, as is the tempo on its second line. -/
def superseded : Text :=
  "% square\n[ 90_bpm ][ 3/4 ]\n% sine\n[ 120_bpm ]\n*\n| (Dn_4 1/4)".toList

/-- Both tempo lines stand in front of the section, since the first of them has the time
signature. -/
theorem sectionScore_latest_superseded :
  (0 ≤ (50 : Int) ∧ (50 : Int) ≤ superseded.length) ∧
    LastOf isCheckpointLine ((rows superseded).take 6) 4 ∧
    ∃ is start, Latest ((rows superseded).take 4) is ∧
      (Buffer.ofText superseded).lineStart 4 = .ok start ∧
      (is.filterMap ((rows superseded)[·]?)).flatten ++ superseded.drop start =
        "[ 90_bpm ][ 3/4 ]\n% sine\n[ 120_bpm ]\n*\n| (Dn_4 1/4)".toList
  := by
  have hcursor : 0 ≤ (50 : Int) ∧ (50 : Int) ≤ superseded.length := by
    decide +kernel
  have hlast : LastOf isCheckpointLine ((rows superseded).take 6) 4 := by
    apply (lastCheckpoint?_eq_some_iff _ _).mp
    decide +kernel
  obtain ⟨-, n, hn, hsection, -⟩ := sectionScore_latest superseded hcursor
  have hline : (Buffer.ofText superseded).lineAt 50 = .ok 5 := by
    decide +kernel
  cases hn.symm.trans hline
  obtain ⟨is, start, his, hstart, hscore⟩ := hsection 4 hlast
  have hpreview : sectionScore superseded 50 =
      .ok "[ 90_bpm ][ 3/4 ]\n% sine\n[ 120_bpm ]\n*\n| (Dn_4 1/4)".toList := by
    decide +kernel
  exact ⟨hcursor, hlast, is, start, his, hstart, Except.ok.inj (hscore.symm.trans hpreview)⟩

end Preview

end Tunescript
