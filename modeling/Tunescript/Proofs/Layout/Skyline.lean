import Mathlib.Algebra.Order.BigOperators.Group.List
import Mathlib.Order.Bounds.Basic
import Mathlib.Tactic.Ring
import Tunescript.Proofs.Layout.Widths

/-!
# Room for every note

In exact arithmetic, where the times of the notes of a measure are the same or keep their distance,
the cuts are just these times (`cuts_of_keepDistance`), and the segments between them tile the
measure up to its latest end.  Widening the segments under a note gives it the columns that it needs
(`minWidth_le_widthBetween_widen`) and takes none from any other (`wider_widen`), so that in the end
there is room for every note (`room_of_layoutMeasure`).
-/

namespace Tunescript.Layout

open Scalar (atMost_rat_iff distance_rat less_rat_iff sortBy_pairwise_rat sortBy_perm sum_rat)

/-- Spans of time follow one another, each of them forward. -/
inductive Tiles : Rat → Rat → List (Rat × Rat) → Prop
  /-- Nothing reaches from a time to itself. -/
  | nil (a : Rat) : Tiles a a []
  /-- A span in front of those that follow it. -/
  | cons {a b c : Rat} {spans : List (Rat × Rat)} (hab : a < b) (h : Tiles b c spans) :
    Tiles a c ((a, b) :: spans)

theorem Tiles.lt_of_mem {a c : Rat} {spans : List (Rat × Rat)} (h : Tiles a c spans) :
  ∀ span ∈ spans, span.1 < span.2
  := by
  induction h with
  | nil => simp
  | cons hab _ ih => exact List.forall_mem_cons.mpr ⟨hab, ih⟩

/-- The start of a measure, and the times at which its notes start and end. -/
def times (slots : List (Slot Rat)) : List Rat := 0 :: slots.flatMap fun s => [s.start, s.stop]

/-- A note starts in its measure, has a length and may need columns. -/
structure Slot.Sound (s : Slot Rat) : Prop where
  /-- It does not start before the measure. -/
  start_nonneg : 0 ≤ s.start
  /-- It has a length. -/
  duration_pos : 0 < s.duration
  /-- It does not need less than no column. -/
  minWidth_nonneg : 0 ≤ s.minWidth

instance (s : Slot Rat) : Decidable s.Sound :=
  decidable_of_iff (0 ≤ s.start ∧ 0 < s.duration ∧ 0 ≤ s.minWidth)
    ⟨fun ⟨hstart, hduration, hwidth⟩ => ⟨hstart, hduration, hwidth⟩,
      fun ⟨hstart, hduration, hwidth⟩ => ⟨hstart, hduration, hwidth⟩⟩

theorem Slot.Sound.start_lt_stop {s : Slot Rat} (h : s.Sound) :
  s.start < s.stop
  := lt_add_of_pos_right s.start h.duration_pos

section Cuts

theorem tolerance_pos :
  0 < (tolerance : Rat)
  := by decide +kernel

/-- The times are the same, or the second is later by at least the distance that keeps cuts
apart. -/
def Rises (x y : Rat) : Prop := x = y ∨ x + tolerance ≤ y

/-- Of rising times all different ones are kept. -/
theorem spacedAfter_of_rises {last : Rat} {ps : List Rat} (h : (last :: ps).Pairwise Rises) :
  (last :: spacedAfter last ps).Pairwise (· < ·) ∧
    ∀ x, x ∈ last :: spacedAfter last ps ↔ x ∈ last :: ps
  := by
  induction ps generalizing last with
  | nil => simp [spacedAfter]
  | cons p ps ih =>
    obtain ⟨hlast, hps⟩ := List.pairwise_cons.mp h
    obtain ⟨hp, hrest⟩ := List.forall_mem_cons.mp hlast
    rw [spacedAfter, distance_rat]
    -- A time that keeps its distance is kept, and one that does not is the last one again.
    split
    · rename_i hfar
      obtain ⟨hpairwise, hmem⟩ := ih hps
      rw [atMost_rat_iff] at hfar
      have hlt : last < p := by
        obtain rfl | hp := hp
        · rw [sub_self, abs_zero] at hfar
          cases hfar.not_gt tolerance_pos
        · exact (lt_add_of_pos_right last tolerance_pos).trans_le hp
      constructor
      · apply List.pairwise_cons.mpr ⟨_, hpairwise⟩
        intro x hx
        obtain rfl | hx := List.mem_cons.mp hx
        · exact hlt
        · exact hlt.trans ((List.pairwise_cons.mp hpairwise).1 x hx)
      · intro x
        rw [List.mem_cons, hmem, ← List.mem_cons]
    · rename_i hnear
      rw [atMost_rat_iff] at hnear
      obtain rfl : last = p := by
        obtain rfl | hp := hp
        · rfl
        · apply absurd (le_abs.mpr (.inl _)) hnear
          linarith
      obtain ⟨hpairwise, hmem⟩ := ih hps
      refine ⟨hpairwise, ?_⟩
      intro x
      rw [hmem]
      simp

/-- Times that are the same or keep their distance from each other. -/
def KeepDistance (xs : List Rat) : Prop := ∀ x ∈ xs, ∀ y ∈ xs, x ≠ y → 1 / 1000000 ≤ |x - y|

variable {slots : List (Slot Rat)}

/-- The cuts rise, and they are the times of the notes. -/
theorem cuts_of_keepDistance (h : KeepDistance (times slots)) :
  (cuts slots).Pairwise (· < ·) ∧ ∀ x, x ∈ cuts slots ↔ x ∈ times slots
  := by
  have hperm : (Scalar.sortBy id (times slots)).Perm (times slots) := sortBy_perm id _
  have hrises : (Scalar.sortBy id (times slots)).Pairwise Rises := by
    apply (sortBy_pairwise_rat id (times slots)).imp_of_mem
    intro x y hx hy hle
    have hxy := h x (hperm.mem_iff.mp hx) y (hperm.mem_iff.mp hy)
    by_cases heq : x = y
    · exact .inl heq
    · have hle : x ≤ y := hle
      have hfar := hxy heq
      have htolerance : (tolerance : Rat) = 1 / 1000000 := by decide +kernel
      rw [abs_sub_comm, abs_of_nonneg (sub_nonneg.mpr hle), ← htolerance] at hfar
      exact .inr (by linarith)
  have hcuts : cuts slots = spaced (Scalar.sortBy id (times slots)) := rfl
  have hspaced : (spaced (Scalar.sortBy id (times slots))).Pairwise (· < ·) ∧
      ∀ x, x ∈ spaced (Scalar.sortBy id (times slots)) ↔ x ∈ Scalar.sortBy id (times slots) := by
    cases hsorted : Scalar.sortBy id (times slots) with
    | nil => simp [spaced]
    | cons p ps => exact spacedAfter_of_rises (hsorted ▸ hrises)
  rw [hcuts]
  refine ⟨hspaced.1, ?_⟩
  intro x
  rw [hspaced.2, hperm.mem_iff]

theorem mem_times_iff {x : Rat} :
  x ∈ times slots ↔ x = 0 ∨ ∃ s ∈ slots, x = s.start ∨ x = s.stop
  := by simp [times]

/-- Notes that start in their measure have no time before it. -/
theorem nonneg_of_mem_times (hslots : ∀ s ∈ slots, s.Sound) {x : Rat} (hx : x ∈ times slots) :
  0 ≤ x
  := by
  obtain rfl | ⟨s, hs, rfl | rfl⟩ := mem_times_iff.mp hx
  · exact le_rfl
  · exact (hslots s hs).start_nonneg
  · exact (hslots s hs).start_nonneg.trans (hslots s hs).start_lt_stop.le

/-- Rising times are the ends of spans that reach from the first to the last of them. -/
theorem tiles_zip {p : Rat} {ps : List Rat} (h : (p :: ps).Pairwise (· < ·)) :
  ∃ stop ∈ p :: ps, (∀ x ∈ p :: ps, x ≤ stop) ∧ Tiles p stop ((p :: ps).zip ps)
  := by
  induction ps generalizing p with
  | nil => exact ⟨p, List.mem_cons_self, by simp, .nil p⟩
  | cons q qs ih =>
    obtain ⟨hp, hqs⟩ := List.pairwise_cons.mp h
    obtain ⟨stop, hstop, hle, htiles⟩ := ih hqs
    have hpq := hp q List.mem_cons_self
    refine ⟨stop, List.mem_cons_of_mem _ hstop, ?_, .cons hpq htiles⟩
    intro x hx
    obtain rfl | hx := List.mem_cons.mp hx
    · exact hpq.le.trans (hle q List.mem_cons_self)
    · exact hle x hx

/-- Among the spans between rising times one starts at each time but the last, and it ends with the
next. -/
theorem exists_mem_zip {points : List Rat} (h : points.Pairwise (· < ·)) {x y : Rat}
    (hx : x ∈ points) (hy : y ∈ points) (hxy : x < y) :
  ∃ z, (x, z) ∈ points.zip points.tail ∧ x < z ∧ z ≤ y
  := by
  induction points with
  | nil => cases hx
  | cons p ps ih =>
    obtain ⟨hp, hps⟩ := List.pairwise_cons.mp h
    have hy' : y ∈ ps := by
      obtain rfl | hy := List.mem_cons.mp hy
      · obtain rfl | hx := List.mem_cons.mp hx
        · cases hxy.ne rfl
        · cases hxy.not_gt (hp x hx)
      · exact hy
    obtain ⟨q, qs, rfl⟩ := List.exists_cons_of_ne_nil (List.ne_nil_of_mem hy')
    have hzip : (p :: q :: qs).zip (p :: q :: qs).tail = (p, q) :: (q :: qs).zip (q :: qs).tail :=
      rfl
    rw [hzip]
    obtain rfl | hx := List.mem_cons.mp hx
    · refine ⟨q, List.mem_cons_self, hp q List.mem_cons_self, ?_⟩
      obtain rfl | hy := List.mem_cons.mp hy'
      · exact le_rfl
      · exact ((List.pairwise_cons.mp hps).1 y hy).le
    · obtain ⟨z, hz, hlt⟩ := ih hps hx hy'
      exact ⟨z, List.mem_cons_of_mem _ hz, hlt⟩

end Cuts

section Segments

variable {slots : List (Slot Rat)}

/-- The time from the start of a segment to its end. -/
def Segment.span (g : Segment Rat) : Rat × Rat := (g.start, g.stop)

theorem map_span_segments (slots : List (Slot Rat)) :
  (segments slots).map Segment.span = (cuts slots).zip (cuts slots).tail
  := by
  rw [segments, List.map_map]
  apply List.map_id

/-- The segments between the cuts tile the measure up to the latest end of a note. -/
theorem tiles_segments (hslots : ∀ s ∈ slots, s.Sound) (h : KeepDistance (times slots)) :
  ∃ stop, IsGreatest (insert 0 {x | ∃ s ∈ slots, s.stop = x}) stop ∧
    Tiles 0 stop ((segments slots).map Segment.span)
  := by
  obtain ⟨hpairwise, hmem⟩ := cuts_of_keepDistance h
  rw [map_span_segments]
  cases hcuts : cuts slots with
  | nil =>
    have hzero := (hmem 0).mpr List.mem_cons_self
    rw [hcuts] at hzero
    cases hzero
  | cons p ps =>
    rw [hcuts] at hpairwise hmem
    obtain ⟨stop, hstop, hle, htiles⟩ := tiles_zip hpairwise
    have hnonneg {x : Rat} (hx : x ∈ p :: ps) : 0 ≤ x := nonneg_of_mem_times hslots ((hmem x).mp hx)
    obtain rfl : 0 = p := by
      obtain hzero | hzero := List.mem_cons.mp ((hmem 0).mpr List.mem_cons_self)
      · exact hzero
      · cases ((List.pairwise_cons.mp hpairwise).1 0 hzero).not_ge (hnonneg List.mem_cons_self)
    refine ⟨stop, ⟨?_, ?_⟩, htiles⟩
    · obtain rfl | ⟨s, hs, rfl | rfl⟩ := mem_times_iff.mp ((hmem stop).mp hstop)
      · exact .inl rfl
      · have hstop' := hle s.stop ((hmem s.stop).mpr (mem_times_iff.mpr (.inr ⟨s, hs, .inr rfl⟩)))
        cases hstop'.not_gt (hslots s hs).start_lt_stop
      · exact .inr ⟨s, hs, rfl⟩
    · rintro x (rfl | ⟨s, hs, rfl⟩)
      · exact hnonneg hstop
      · exact hle s.stop ((hmem s.stop).mpr (mem_times_iff.mpr (.inr ⟨s, hs, .inr rfl⟩)))

/-- Under a note there is a segment. -/
theorem exists_liesWithin_segments (hslots : ∀ s ∈ slots, s.Sound) (h : KeepDistance (times slots))
    {s : Slot Rat} (hs : s ∈ slots) :
  ∃ g ∈ segments slots, g.liesWithin s.start s.stop
  := by
  obtain ⟨hpairwise, hmem⟩ := cuts_of_keepDistance h
  have hstart := (hmem s.start).mpr (mem_times_iff.mpr (.inr ⟨s, hs, .inl rfl⟩))
  have hstop := (hmem s.stop).mpr (mem_times_iff.mpr (.inr ⟨s, hs, .inr rfl⟩))
  obtain ⟨z, hz, hlt, hle⟩ := exists_mem_zip hpairwise hstart hstop (hslots s hs).start_lt_stop
  rw [← map_span_segments] at hz
  obtain ⟨g, hg, hspan⟩ := List.mem_map.mp hz
  obtain ⟨hgstart, hgstop⟩ := Prod.mk.inj hspan
  refine ⟨g, hg, liesWithin_iff.mpr ?_⟩
  rw [hgstart, hgstop]
  constructor <;> linarith

end Segments

section Widening

/-- A segment with the same span that is at least as wide. -/
structure Wider (g h : Segment Rat) : Prop where
  /-- The span is the same. -/
  span : h.span = g.span
  /-- No column is taken away. -/
  width : g.width ≤ h.width

/-- All segments lead forward in time. -/
def Forward (segments : List (Segment Rat)) : Prop := ∀ g ∈ segments, g.start < g.stop

variable {segments segments' : List (Segment Rat)} {a b : Rat}

theorem Wider.liesWithin {g h : Segment Rat} (hwider : Wider g h) :
  h.liesWithin a b = g.liesWithin a b
  := by
  obtain ⟨hstart, hstop⟩ := Prod.mk.inj hwider.span
  rw [Segment.liesWithin, Segment.liesWithin, hstart, hstop]

theorem wider_refl (segments : List (Segment Rat)) :
  List.Forall₂ Wider segments segments
  := List.forall₂_same.mpr fun _ _ => ⟨rfl, le_rfl⟩

theorem map_span_of_wider (h : List.Forall₂ Wider segments segments') :
  segments'.map Segment.span = segments.map Segment.span
  := by
  induction h with
  | nil => rfl
  | cons hg _ ih => rw [List.map_cons, List.map_cons, hg.span, ih]

/-- Wider segments lie between the same times, where they have at least as many columns. -/
theorem widthBetween_le_of_wider (h : List.Forall₂ Wider segments segments') :
  widthBetween segments a b ≤ widthBetween segments' a b
  := by
  induction h with
  | nil => exact le_rfl
  | cons hg _ ih =>
    rw [widthBetween_cons, widthBetween_cons, hg.liesWithin]
    apply add_le_add _ ih
    split
    · exact hg.width
    · exact le_rfl

theorem wider_trans {segments'' : List (Segment Rat)} (h : List.Forall₂ Wider segments segments')
    (h' : List.Forall₂ Wider segments' segments'') :
  List.Forall₂ Wider segments segments''
  := by
  induction h generalizing segments'' with
  | nil => exact h'
  | cons hg _ ih =>
    cases h' with
    | cons hg' h' => exact .cons ⟨hg'.span.trans hg.span, hg.width.trans hg'.width⟩ (ih h')

/-- The duration of the segments between two times. -/
def durationBetween (segments : List (Segment Rat)) (a b : Rat) : Rat :=
  ((segments.filter (Segment.liesWithin a b)).map Segment.duration).sum

/-- A segment with as many more columns for its duration, if it lies between two times. -/
def Segment.stretched (a b rate : Rat) (g : Segment Rat) : Segment Rat :=
  if g.liesWithin a b then { g with width := g.width + rate * g.duration } else g

theorem duration_pos_of_forward (h : Forward segments) {g : Segment Rat} (hg : g ∈ segments) :
  0 < g.duration
  := sub_pos.mpr (h g hg)

/-- Where there is a segment between two times, it lasts. -/
theorem durationBetween_pos (hforward : Forward segments) (h : ∃ g ∈ segments, g.liesWithin a b) :
  0 < durationBetween segments a b
  := by
  obtain ⟨g, hg, hwithin⟩ := h
  apply List.sum_pos
  · intro d hd
    obtain ⟨f, hf, rfl⟩ := List.mem_map.mp hd
    exact duration_pos_of_forward hforward (List.mem_of_mem_filter hf)
  · apply List.ne_nil_of_mem
    exact List.mem_map_of_mem (List.mem_filter.mpr ⟨hg, hwithin⟩)

/-- A note that lacks columns gets as many more for every time under it as make up for them; any
other note has enough. -/
theorem widen_eq (s : Slot Rat) (hduration : 0 < durationBetween segments s.start s.stop) :
  widen segments s =
    if widthBetween segments s.start s.stop < s.minWidth then
      segments.map (Segment.stretched s.start s.stop
        ((s.minWidth - widthBetween segments s.start s.stop) /
          durationBetween segments s.start s.stop))
    else segments
  := by
  have htotal :
      Scalar.sum ((segments.filter (Segment.liesWithin s.start s.stop)).map Segment.duration) =
      durationBetween segments s.start s.stop := sum_rat _
  have hwidth :
      Scalar.sum ((segments.filter (Segment.liesWithin s.start s.stop)).map Segment.width) =
      widthBetween segments s.start s.stop := rfl
  have hless : Scalar.less Scalar.zero (durationBetween segments s.start s.stop) := hduration
  rw [widen]
  dsimp only
  rw [htotal, hwidth, hless, Bool.and_true]
  by_cases hnarrow : widthBetween segments s.start s.stop < s.minWidth
  · rw [if_pos ((less_rat_iff _ _).mpr hnarrow), if_pos hnarrow]
    apply List.map_congr_left
    intro g _
    have hshare (x y z : Rat) : x * y / z = x / z * y := mul_div_right_comm x y z
    rw [Segment.stretched, ← hshare]
  · rw [if_neg ((less_rat_iff _ _).not.mpr hnarrow), if_neg hnarrow]

theorem span_stretched (a b rate : Rat) (g : Segment Rat) :
  (g.stretched a b rate).span = g.span
  := by
  rw [Segment.stretched]
  split <;> rfl

/-- Segments that are stretched and not shrunk are wider. -/
theorem wider_stretched {rate : Rat} (hforward : Forward segments) (hrate : 0 ≤ rate) :
  List.Forall₂ Wider segments (segments.map (Segment.stretched a b rate))
  := by
  rw [List.forall₂_map_right_iff, List.forall₂_same]
  intro g hg
  refine ⟨span_stretched a b rate g, ?_⟩
  rw [Segment.stretched]
  split
  · have hduration := duration_pos_of_forward hforward hg
    exact le_add_of_nonneg_right (mul_nonneg hrate hduration.le)
  · exact le_rfl

theorem durationBetween_cons (g : Segment Rat) (gs : List (Segment Rat)) :
  durationBetween (g :: gs) a b = (if g.liesWithin a b then g.duration else 0) +
    durationBetween gs a b
  := by
  rw [durationBetween, durationBetween, List.filter_cons]
  split
  · rw [List.map_cons, List.sum_cons]
  · rw [zero_add]

/-- All columns that stretched segments gain lie between the two times. -/
theorem widthBetween_map_stretched (a b rate : Rat) (segments : List (Segment Rat)) :
  widthBetween (segments.map (Segment.stretched a b rate)) a b =
    widthBetween segments a b + rate * durationBetween segments a b
  := by
  induction segments with
  | nil =>
    rw [List.map_nil, widthBetween_nil, durationBetween, List.filter_nil, List.map_nil,
      List.sum_nil, mul_zero, add_zero]
  | cons g gs ih =>
    have hwithin : (g.stretched a b rate).liesWithin a b = g.liesWithin a b := by
      rw [Segment.stretched]
      split <;> rfl
    rw [List.map_cons, widthBetween_cons, widthBetween_cons, durationBetween_cons, ih, hwithin,
      Segment.stretched]
    split <;> ring

variable {s : Slot Rat}

/-- A note is given the columns that it needs. -/
theorem minWidth_le_widthBetween_widen (hforward : Forward segments)
    (h : ∃ g ∈ segments, g.liesWithin s.start s.stop) :
  s.minWidth ≤ widthBetween (widen segments s) s.start s.stop
  := by
  have hduration := durationBetween_pos hforward h
  rw [widen_eq s hduration]
  split
  · rw [widthBetween_map_stretched, div_mul_cancel₀ _ hduration.ne']
    linarith
  · rename_i hwide
    exact not_lt.mp hwide

/-- No segment loses columns to a note. -/
theorem wider_widen (hforward : Forward segments)
    (h : ∃ g ∈ segments, g.liesWithin s.start s.stop) :
  List.Forall₂ Wider segments (widen segments s)
  := by
  have hduration := durationBetween_pos hforward h
  rw [widen_eq s hduration]
  split
  · rename_i hnarrow
    exact wider_stretched hforward (div_pos (sub_pos.mpr hnarrow) hduration).le
  · exact wider_refl segments

theorem forward_of_wider (h : List.Forall₂ Wider segments segments') (hforward : Forward segments) :
  Forward segments'
  := by
  induction h with
  | nil => exact hforward
  | cons hg _ ih =>
    obtain ⟨hlt, hforward⟩ := List.forall_mem_cons.mp hforward
    obtain ⟨hstart, hstop⟩ := Prod.mk.inj hg.span
    apply List.forall_mem_cons.mpr ⟨_, ih hforward⟩
    rwa [hstart, hstop]

theorem exists_liesWithin_of_wider (h : List.Forall₂ Wider segments segments')
    (hg : ∃ g ∈ segments, g.liesWithin a b) :
  ∃ g ∈ segments', g.liesWithin a b
  := by
  induction h with
  | nil => exact hg
  | cons hwider _ ih =>
    rw [List.exists_mem_cons_iff] at hg ⊢
    rw [hwider.liesWithin]
    exact hg.imp_right ih

theorem width_nonneg_of_wider (h : List.Forall₂ Wider segments segments')
    (hnonneg : ∀ g ∈ segments, 0 ≤ g.width) :
  ∀ g ∈ segments', 0 ≤ g.width
  := by
  induction h with
  | nil => exact hnonneg
  | cons hg _ ih =>
    obtain ⟨hwidth, hnonneg⟩ := List.forall_mem_cons.mp hnonneg
    exact List.forall_mem_cons.mpr ⟨hwidth.trans hg.width, ih hnonneg⟩

/-- Widening segments for one note after the other takes no columns away and ends with room for
each. -/
theorem wider_foldl_widen {slots : List (Slot Rat)} (hforward : Forward segments)
    (h : ∀ s ∈ slots, ∃ g ∈ segments, g.liesWithin s.start s.stop) :
  List.Forall₂ Wider segments (slots.foldl widen segments) ∧
    ∀ s ∈ slots, s.minWidth ≤ widthBetween (slots.foldl widen segments) s.start s.stop
  := by
  induction slots generalizing segments with
  | nil => exact ⟨wider_refl segments, by simp⟩
  | cons s ss ih =>
    -- The room that the first note gets is not taken away for the notes behind it.
    obtain ⟨hs, hss⟩ := List.forall_mem_cons.mp h
    have hwider := wider_widen hforward hs
    obtain ⟨hrest, hroom⟩ := ih (forward_of_wider hwider hforward) fun t ht =>
      exists_liesWithin_of_wider hwider (hss t ht)
    refine ⟨wider_trans hwider hrest, List.forall_mem_cons.mpr ⟨?_, hroom⟩⟩
    exact (minWidth_le_widthBetween_widen hforward hs).trans (widthBetween_le_of_wider hrest)

end Widening

/-- Where the times of the notes are the same or keep their distance, the segments of a measure tile
it up to its latest end, none has less than no column, and there is room for every note. -/
theorem room_of_layoutMeasure {slots : List (Slot Rat)} (hslots : ∀ s ∈ slots, s.Sound)
    (hdistance : KeepDistance (times slots)) :
  (∃ stop, IsGreatest (insert 0 {x | ∃ s ∈ slots, s.stop = x}) stop ∧
      Tiles 0 stop ((layoutMeasure slots).map Segment.span)) ∧
    (∀ g ∈ layoutMeasure slots, 0 ≤ g.width) ∧
    ∀ s ∈ slots, s.minWidth ≤ widthBetween (layoutMeasure slots) s.start s.stop
  := by
  have hperm : (Scalar.sortBy Slot.duration slots).Perm slots := sortBy_perm Slot.duration slots
  obtain ⟨stop, hgreatest, htiles⟩ := tiles_segments hslots hdistance
  have hforward : Forward (segments slots) :=
    fun g hg => htiles.lt_of_mem _ (List.mem_map_of_mem hg)
  have hnarrow : ∀ g ∈ segments slots, 0 ≤ g.width := by
    intro g hg
    obtain ⟨_, _, rfl⟩ := List.mem_map.mp hg
    exact le_rfl
  obtain ⟨hwider, hroom⟩ := wider_foldl_widen hforward fun s hs =>
    exists_liesWithin_segments hslots hdistance (hperm.mem_iff.mp hs)
  rw [← layoutMeasure] at hwider hroom
  refine ⟨⟨stop, hgreatest, ?_⟩, width_nonneg_of_wider hwider hnarrow, ?_⟩
  · rwa [map_span_of_wider hwider]
  · intro s hs
    exact hroom s (hperm.mem_iff.mpr hs)

/-- A half note against a dotted quarter note and an eighth note, which needs most of the
columns. -/
def counterpoint : List (Slot Rat) := [⟨0, 2, 6⟩, ⟨0, 3 / 2, 3⟩, ⟨3 / 2, 1 / 2, 5⟩]

theorem room_of_layoutMeasure_counterpoint :
  (∀ s ∈ counterpoint, s.Sound) ∧ KeepDistance (times counterpoint) ∧
    (∃ stop, IsGreatest (insert 0 {x | ∃ s ∈ counterpoint, s.stop = x}) stop ∧
      Tiles 0 stop ((layoutMeasure counterpoint).map Segment.span)) ∧
    (∀ g ∈ layoutMeasure counterpoint, 0 ≤ g.width) ∧
    ∀ s ∈ counterpoint, s.minWidth ≤ widthBetween (layoutMeasure counterpoint) s.start s.stop
  := by
  have hslots : ∀ s ∈ counterpoint, s.Sound := by decide +kernel
  have hdistance : KeepDistance (times counterpoint) := by
    unfold KeepDistance
    decide +kernel
  exact ⟨hslots, hdistance, room_of_layoutMeasure hslots hdistance⟩

end Tunescript.Layout
