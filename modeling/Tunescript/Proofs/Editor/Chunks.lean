import Tunescript.Proofs.Editor.BufferRuns

/-!
# The chunks of a buffer

No chunk of a buffer is ever empty.  A text is cut into chunks of a limited length, and a text that
is put in is cut again together with the chunk that it goes into; but what remains of the chunks
that a removed range touches becomes one chunk, however long it is (`removeFrom_eq`).  So the chunks
of a buffer stay within the limit exactly as long as no range is removed that touches chunks with
more than one chunk's worth of other characters (`chunks_of_run`).
-/

namespace Tunescript.Buffer

open Program

section Cut

/-- A text is cut into chunks that are not empty and not too long. -/
theorem ne_nil_and_length_le_of_mem_cut {t c : Text} (h : c ∈ cut t) :
  c ≠ [] ∧ c.length ≤ chunkSize
  := by
  induction t using cut.induct with
  | case1 =>
    rw [cut, dif_pos rfl] at h
    cases h
  | case2 t ht ih =>
    rw [cut, dif_neg ht] at h
    obtain rfl | h := List.mem_cons.mp h
    · constructor
      · intro hnil
        obtain h | h := List.take_eq_nil_iff.mp hnil
        · cases h
        · apply ht h
      · apply List.length_take_le
    · apply ih h

/-- The chunks with a text put in are those that were there and those that a text is cut into. -/
theorem mem_of_mem_insertInto {s c : Text} {i : Nat} {cs : Snapshot} (h : c ∈ insertInto s i cs) :
  c ∈ cs ∨ ∃ t, c ∈ cut t
  := by
  induction i, cs using insertInto.induct with
  | case1 i => exact .inr ⟨_, h⟩
  | case2 i d => exact .inr ⟨_, h⟩
  | case3 i d e cs hi =>
    rw [insertInto, if_pos hi] at h
    obtain h | h := List.mem_append.mp h
    · exact .inr ⟨_, h⟩
    · exact .inl (List.mem_cons_of_mem _ h)
  | case4 i d e cs hi ih =>
    rw [insertInto, if_neg hi] at h
    obtain rfl | h := List.mem_cons.mp h
    · exact .inl List.mem_cons_self
    · exact (ih h).imp_left (List.mem_cons_of_mem _)

end Cut

section Remove

variable {start stop : Nat} {cs : Snapshot}

/-- The chunks that hold a character of a range. -/
def touched : (start stop : Nat) → Snapshot → Snapshot
  | _, _, [] => []
  | start, stop, c :: cs =>
    let rest := touched (start - c.length) (stop - c.length) cs
    if start < c.length ∧ 0 < stop then c :: rest else rest

@[simp]
theorem touched_zero (start : Nat) (cs : Snapshot) :
  touched start 0 cs = []
  := by
  induction cs generalizing start with
  | nil => rfl
  | cons c cs ih => simp [touched, ih]

/-- The chunks up to a position are the touched ones, and what follows the position in the last of
them is what they hold behind it. -/
theorem after_eq (hcs : ∀ c ∈ cs, c ≠ []) (h : 0 < stop) (hstop : stop ≤ cs.flatten.length) :
  cs = touched 0 stop cs ++ (after stop cs).2 ∧
    (after stop cs).1.length + stop = (touched 0 stop cs).flatten.length
  := by
  induction stop, cs using after.induct with
  | case1 stop =>
    have hnil : stop ≤ 0 := hstop
    omega
  | case2 stop c cs hle =>
    have hc : 0 < c.length ∧ 0 < stop := ⟨by omega, h⟩
    have hrest : stop - c.length = 0 := by omega
    rw [touched, if_pos hc, hrest, touched_zero, after, if_pos hle]
    refine ⟨rfl, ?_⟩
    simp only [List.length_drop, List.flatten_singleton]
    omega
  | case3 stop c cs hgt ih =>
    have hc : 0 < c.length ∧ 0 < stop := ⟨List.length_pos_iff.mpr (hcs c List.mem_cons_self), h⟩
    rw [List.flatten_cons, List.length_append] at hstop
    obtain ⟨hsplit, hlength⟩ := ih (fun d hd => hcs d (List.mem_cons_of_mem c hd)) (by omega)
      (by omega)
    rw [touched, if_pos hc, Nat.zero_sub, after, if_neg hgt]
    constructor
    · rw [List.cons_append, ← hsplit]
    · rw [List.flatten_cons, List.length_append, ← hlength]
      omega

/-- Taking a range out puts one chunk in the place of those that it touches, or none if nothing
remains of them. -/
theorem removeFrom_eq (hcs : ∀ c ∈ cs, c ≠ []) (h : start < stop)
    (hstop : stop ≤ cs.flatten.length) :
  ∃ us ws remains, cs = us ++ (touched start stop cs ++ ws) ∧
    remains.length + (stop - start) = (touched start stop cs).flatten.length ∧
    removeFrom start stop cs = us ++ if remains = [] then ws else remains :: ws
  := by
  induction cs generalizing start stop with
  | nil =>
    rw [List.flatten_nil, List.length_nil] at hstop
    omega
  | cons c cs ih =>
    by_cases hc : start < c.length
    · obtain ⟨hsplit, hlength⟩ := after_eq hcs (Nat.zero_lt_of_lt h) hstop
      have htouched : touched start stop (c :: cs) = touched 0 stop (c :: cs) := by
        have hstart : start - c.length = 0 := by omega
        rw [touched, touched, hstart, Nat.zero_sub, if_pos ⟨hc, Nat.zero_lt_of_lt h⟩,
          if_pos ⟨Nat.zero_lt_of_lt hc, Nat.zero_lt_of_lt h⟩]
      rw [htouched]
      refine ⟨[], (after stop (c :: cs)).2, c.take start ++ (after stop (c :: cs)).1,
        hsplit, ?_, ?_⟩
      · rw [List.length_append, List.length_take, ← hlength]
        omega
      · rw [removeFrom, if_pos hc]
        simp only [List.isEmpty_iff, List.nil_append]
    · rw [List.flatten_cons, List.length_append] at hstop
      have hlt : start - c.length < stop - c.length := by omega
      have hle : stop - c.length ≤ cs.flatten.length := by omega
      obtain ⟨us, ws, remains, hsplit, hlength, hremove⟩ :=
        ih (fun d hd => hcs d (List.mem_cons_of_mem c hd)) hlt hle
      have htouched : touched start stop (c :: cs) =
          touched (start - c.length) (stop - c.length) cs :=
        if_neg fun hboth => hc hboth.1
      rw [htouched]
      refine ⟨c :: us, ws, remains, ?_, ?_, ?_⟩
      · rw [List.cons_append, ← hsplit]
      · rw [← hlength]
        omega
      · rw [removeFrom, if_neg hc, hremove, List.cons_append]

end Remove

section Runs

/-- All chunks that are there or have been kept have a property. -/
structure Each (P : Text → Prop) (h : Held Buffer Snapshot) : Prop where
  /-- The chunks that are there have it. -/
  current : ∀ c ∈ h.current.chunks, P c
  /-- The chunks that have been kept have it. -/
  kept : ∀ s ∈ h.kept, ∀ c ∈ s, P c

/-- The call takes a range out of chunks that hold more besides than fits into one chunk. -/
def Overfills (b : Buffer) : Call → Prop
  | .remove start stop => 0 ≤ start ∧ start < stop ∧ stop ≤ b.length ∧
    chunkSize + (stop - start).toNat < (touched start.toNat stop.toNat b.chunks).flatten.length
  | _ => False

variable {b b' : Buffer} {h : Held Buffer Snapshot} {P : Text → Prop}

/-- An insertion adds only chunks that a text is cut into. -/
theorem forall_chunks_insert (hcut : ∀ t, ∀ c ∈ cut t, P c) (hb : ∀ c ∈ b.chunks, P c) {i : Int}
    {s : Text} (hinsert : b.insert i s = .ok b') :
  ∀ c ∈ b'.chunks, P c
  := by
  rw [insert] at hinsert
  split at hinsert
  · cases hinsert
    split
    · apply hb
    · intro c hc
      obtain hc | ⟨t, hc⟩ := mem_of_mem_insertInto hc
      · apply hb c hc
      · apply hcut t c hc
  · cases hinsert

/-- A range that is not empty leaves one chunk in the place of those that it touches, or none. -/
theorem remove_eq_ok_chunks (hne : ∀ c ∈ b.chunks, c ≠ []) {start stop : Int} (hstart : 0 ≤ start)
    (hlt : start < stop) (hstop : stop ≤ b.length) :
  ∃ us ws remains, b.chunks = us ++ (touched start.toNat stop.toNat b.chunks ++ ws) ∧
    remains.length + (stop - start).toNat =
      (touched start.toNat stop.toNat b.chunks).flatten.length ∧
    b.remove start stop = .ok ⟨us ++ if remains = [] then ws else remains :: ws⟩
  := by
  have hlt' : start.toNat < stop.toNat := by omega
  have hstop' : stop.toNat ≤ b.chunks.flatten.length := Int.toNat_le.mpr hstop
  obtain ⟨us, ws, remains, hsplit, hlength, hremove⟩ := removeFrom_eq hne hlt' hstop'
  refine ⟨us, ws, remains, hsplit, ?_, ?_⟩
  · rw [← hlength]
    omega
  · rw [remove, if_pos ⟨hstart, Int.le_of_lt hlt, hstop⟩, if_neg (Int.ne_of_lt hlt), hremove]

/-- A removal adds at most the chunk of what remains of those that it touches. -/
theorem forall_chunks_remove (hne : ∀ c ∈ b.chunks, c ≠ []) (hb : ∀ c ∈ b.chunks, P c)
    {start stop : Int}
    (hremains : 0 ≤ start → start < stop → stop ≤ b.length → ∀ r, r ≠ [] →
      r.length + (stop - start).toNat = (touched start.toNat stop.toNat b.chunks).flatten.length →
        P r)
    (hremove : b.remove start stop = .ok b') :
  ∀ c ∈ b'.chunks, P c
  := by
  by_cases hrange : 0 ≤ start ∧ start < stop ∧ stop ≤ b.length
  · obtain ⟨hstart, hlt, hstop⟩ := hrange
    obtain ⟨us, ws, remains, hsplit, hlength, hchunks⟩ := remove_eq_ok_chunks hne hstart hlt hstop
    rw [hchunks] at hremove
    cases hremove
    rw [hsplit] at hb
    intro c hc
    obtain hc | hc := List.mem_append.mp hc
    · apply hb c (List.mem_append_left _ hc)
    · have hws : c ∈ ws → P c := fun hc =>
        hb c (List.mem_append_right _ (List.mem_append_right _ hc))
      split at hc
      · apply hws hc
      · rename_i hnil
        obtain rfl | hc := List.mem_cons.mp hc
        · apply hremains hstart hlt hstop _ hnil hlength
        · apply hws hc
  · rw [remove] at hremove
    split at hremove
    · rename_i hle
      have heq : start = stop := by omega
      rw [if_pos heq] at hremove
      cases hremove
      apply hb
    · cases hremove

/-- What is put in the place of a buffer has the chunks that it is made with. -/
theorem forall_chunks_assign {f : Buffer → Except BufferError Buffer} (hb : ∀ c ∈ b.chunks, P c)
    (hf : ∀ b', f b = .ok b' → ∀ c ∈ b'.chunks, P c) :
  ∀ c ∈ (left (assign f b)).chunks, P c
  := by
  rw [assign_apply]
  cases h : f b with
  | ok b' => apply hf b' h
  | error e => apply hb

/-- What remains after an overfilling call is a chunk that is too long. -/
theorem Overfills.exists_chunk (hne : ∀ c ∈ b.chunks, c ≠ []) {c : Call} (hc : Overfills b c) :
  ∃ start stop b', c = .remove start stop ∧ b.remove start stop = .ok b' ∧
    ∃ d ∈ b'.chunks, chunkSize < d.length
  := by
  cases c with
  | remove start stop =>
    obtain ⟨hstart, hlt, hstop, hover⟩ := hc
    obtain ⟨us, ws, remains, hsplit, hlength, hremove⟩ := remove_eq_ok_chunks hne hstart hlt hstop
    refine ⟨start, stop, _, rfl, hremove, remains, ?_, by omega⟩
    have hnil : remains ≠ [] := by
      rintro rfl
      rw [List.length_nil] at hlength
      omega
    rw [if_neg hnil]
    simp
  | _ => cases hc

/-- A call keeps a property of all chunks if it holds of the chunks that a text is cut into and of
what remains after a removal. -/
theorem Each.next (hcut : ∀ t, ∀ c ∈ cut t, P c) (hne : ∀ c ∈ h.current.chunks, c ≠ [])
    (hP : Each P h) (call : Call)
    (hremains : ∀ start stop, call = .remove start stop → 0 ≤ start → start < stop →
      stop ≤ h.current.length → ∀ r, r ≠ [] →
        r.length + (stop - start).toNat =
          (touched start.toNat stop.toNat h.current.chunks).flatten.length → P r) :
  Each P (chunked.next h call)
  := by
  cases call with
  | insert i s =>
    rw [Operations.next, Operations.step, Held.onCurrent, left_seen]
    refine ⟨?_, hP.kept⟩
    apply forall_chunks_assign hP.current
    intro b' hinsert
    apply forall_chunks_insert hcut hP.current hinsert
  | remove start stop =>
    rw [Operations.next, Operations.step, Held.onCurrent, left_seen]
    refine ⟨?_, hP.kept⟩
    apply forall_chunks_assign hP.current
    intro b' hremove
    apply forall_chunks_remove hne hP.current (hremains start stop rfl) hremove
  | setText t => exact ⟨hcut t, hP.kept⟩
  | snapshot =>
    rw [Operations.next, Operations.step_snapshot]
    refine ⟨hP.current, ?_⟩
    intro s hs
    obtain hs | hs := List.mem_append.mp hs
    · apply hP.kept s hs
    · obtain rfl := List.mem_singleton.mp hs
      apply hP.current
  | restore k =>
    rw [Operations.next]
    cases hk : h.kept[k]? with
    | some s =>
      rw [Operations.step_restore_of_some _ _ hk, left_seen]
      exact ⟨hP.kept s (List.mem_of_getElem? hk), hP.kept⟩
    | none =>
      rw [Operations.step_restore_of_none _ _ hk]
      exact hP

theorem Each.ne_nil_next (hne : Each (· ≠ []) h) (call : Call) :
  Each (· ≠ []) (chunked.next h call)
  := by
  apply hne.next (fun t c hc => (ne_nil_and_length_le_of_mem_cut hc).1) hne.current
  intro start stop _ _ _ _ r hr _
  apply hr

/-- A call that does not overfill keeps all chunks within the limit. -/
theorem Each.length_le_next (hne : Each (· ≠ []) h) (hle : Each (·.length ≤ chunkSize) h)
    {call : Call} (hcall : ¬Overfills h.current call) :
  Each (·.length ≤ chunkSize) (chunked.next h call)
  := by
  apply hle.next (fun t c hc => (ne_nil_and_length_le_of_mem_cut hc).2) hne.current
  rintro start stop rfl hstart hlt hstop r - hlength
  by_contra hlong
  apply hcall
  refine ⟨hstart, hlt, hstop, ?_⟩
  omega

theorem each_ofText (hcut : ∀ t, ∀ c ∈ cut t, P c) (t : Text) :
  Each P ⟨ofText t, []⟩
  := ⟨hcut t, nofun⟩

/-- No run of calls leaves an empty chunk. -/
theorem Each.ne_nil_run (hne : Each (· ≠ []) h) (calls : List Call) :
  Each (· ≠ []) (chunked.run calls h)
  := by
  induction calls generalizing h with
  | nil => apply hne
  | cons call calls ih => apply ih (hne.ne_nil_next call)

/-- A run of calls none of which overfills keeps all chunks within the limit. -/
theorem Each.length_le_run (hne : Each (· ≠ []) h) (hle : Each (·.length ≤ chunkSize) h)
    (calls : List Call)
    (hcalls : ∀ before call after, calls = before ++ call :: after →
      ¬Overfills (chunked.run before h).current call) :
  Each (·.length ≤ chunkSize) (chunked.run calls h)
  := by
  induction calls generalizing h with
  | nil => apply hle
  | cons call calls ih =>
    apply ih (hne.ne_nil_next call)
    · apply hne.length_le_next hle (hcalls [] call calls rfl)
    · rintro before c after rfl
      apply hcalls (call :: before) c after rfl

/-- The chunks of a buffer are never empty, and over a run of calls they are all within the limit
exactly if no call takes a range out of chunks that hold more besides than fits into one chunk. -/
theorem chunks_of_run (t : Text) (calls : List Call) :
  let held (cs : List Call) := chunked.run cs ⟨ofText t, []⟩
  (∀ c ∈ (held calls).current.chunks, c ≠ []) ∧
    ((∀ before, before <+: calls → ∀ c ∈ (held before).current.chunks, c.length ≤ chunkSize) ↔
      ∀ before call after, calls = before ++ call :: after → ¬Overfills (held before).current call)
  := by
  intro held
  have hne : Each (· ≠ []) ⟨ofText t, []⟩ :=
    each_ofText (fun t c hc => (ne_nil_and_length_le_of_mem_cut hc).1) t
  have hle : Each (·.length ≤ chunkSize) ⟨ofText t, []⟩ :=
    each_ofText (fun t c hc => (ne_nil_and_length_le_of_mem_cut hc).2) t
  refine ⟨(hne.ne_nil_run calls).current, ?_, ?_⟩
  · rintro hlengths before call after rfl hcall
    obtain ⟨start, stop, b', rfl, hremove, d, hd, hlong⟩ :=
      hcall.exists_chunk (hne.ne_nil_run before).current
    have hnext : (held (before ++ [.remove start stop])).current = b' := by
      change (Operations.run _ _ _).current = b'
      rw [Operations.run_append]
      change (chunked.next (held before) _).current = b'
      rw [Operations.next, Operations.step, Held.onCurrent, left_seen]
      change left (assign _ _) = b'
      rw [assign_apply, hremove]
      rfl
    have hprefix : before ++ [.remove start stop] <+: before ++ .remove start stop :: after :=
      ⟨after, by simp⟩
    have hshort := hlengths _ hprefix d (by rwa [hnext])
    omega
  · rintro hcalls before ⟨after, rfl⟩
    apply (hne.length_le_run hle before _).current
    rintro us call vs rfl
    apply hcalls us call (vs ++ after)
    simp

/-- What remains of two chunks may be longer than a chunk is to be. -/
theorem not_chunks_of_run_twoChunks :
  let b := (chunked.run [.remove 1023 1025] ⟨ofText (List.replicate 1027 'a'), []⟩).current
  b.chunks = [List.replicate 1025 'a'] ∧ ¬∀ c ∈ b.chunks, c ≠ [] ∧ c.length ≤ chunkSize
  := by
  decide +kernel

end Runs

end Tunescript.Buffer
