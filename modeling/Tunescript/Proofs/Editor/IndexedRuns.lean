import Tunescript.Proofs.Editor.LineIndex

/-!
# Buffers with an index over any run

A buffer with an index edits the chunk that it finds by halving, builds its index anew with the new
chunks, and forgets its text and its lines then.  So what it keeps is always that of its chunks, and
its chunks are those of a buffer that keeps nothing else (`forget_run`): over any run it answers as
that does (`answer_run`), and both are one plain text in another representation
(`run_refines_text`).
-/

namespace Tunescript.Buffer

open Program

namespace Indexed

/-- The operations of buffers with an index. -/
def operations : Operations Indexed Snapshot where
  insert := insert
  remove := remove
  setText := setText
  snapshot x := x.snapshot
  restore := restore

/-- A call or a query. -/
inductive Step where
  /-- A call. -/
  | call (c : Call)
  /-- A query. -/
  | query (q : Query)

/-- What is there after a step, whether it has failed or not. -/
def next (h : Held Indexed Snapshot) : Step → Held Indexed Snapshot
  | .call c => operations.next h c
  | .query q => { h with current := left (answer q h.current) }

/-- The calls among some steps. -/
def callsOf : List Step → List Call
  | [] => []
  | .call c :: steps => c :: callsOf steps
  | .query _ :: steps => callsOf steps

section Edits

variable {x : Indexed}

/-- An insertion changes the chunks as if they were counted through, and one that is refused or puts
nothing in changes nothing. -/
theorem insert_eq (hx : x.Current) (i : Int) (s : Text) :
  insert i s x =
    if 0 ≤ i ∧ i ≤ x.length then
      .ok () (if s.isEmpty then x else ofChunks (insertInto s i.toNat x.chunks))
    else .error (.insertion i x.length) x
  := by
  have happly : insert i s x =
      (if ¬(0 ≤ i ∧ i ≤ x.size) then throw (.insertion i x.size)
      else if s.isEmpty then pure ()
      else if x.chunks.isEmpty then set (ofChunks (cut s))
      else
        let k := x.chunkAt i.toNat
        let within := x.chunkWith k i.toNat
        let merged := within.1.take within.2 ++ s ++ within.1.drop within.2
        set (ofChunks (x.chunks.take k ++ cut merged ++ x.chunks.drop (k + 1))) :
        Program Indexed Unit) x := rfl
  rw [happly, hx.size]
  by_cases hi : 0 ≤ i ∧ i ≤ x.length
  · rw [if_neg (not_not.mpr hi), if_pos hi]
    by_cases hs : s.isEmpty
    · rw [if_pos hs, if_pos hs]
      rfl
    · rw [if_neg hs, if_neg hs]
      by_cases hnil : x.chunks = []
      · rw [if_pos (List.isEmpty_iff.mpr hnil), hnil]
        rfl
      · obtain ⟨us, c, vs, hchunks, hc⟩ := exists_holds hnil i.toNat
        rw [if_neg (by simpa using hnil), chunkAt_eq x hx.chunkStarts hchunks hc,
          chunkWith_eq x hx.chunkStarts hchunks, hchunks, insertInto_eq s hc, List.take_left,
          List.drop_length_add_append]
        rfl
  · rw [if_pos hi, if_neg hi]
    rfl

/-- A removal changes the chunks as if they were counted through, and one that is refused or takes
nothing out changes nothing. -/
theorem remove_eq (hx : x.Current) (start stop : Int) :
  remove start stop x =
    if 0 ≤ start ∧ start ≤ stop ∧ stop ≤ x.length then
      .ok () (if start = stop then x
        else ofChunks (removeFrom start.toNat stop.toNat x.chunks))
    else .error (.removal start stop x.length) x
  := by
  have happly : remove start stop x =
      (if ¬(0 ≤ start ∧ start ≤ stop ∧ stop ≤ x.size) then throw (.removal start stop x.size)
      else if start = stop then pure ()
      else
        let first := x.chunkAt start.toNat
        let last := x.chunkAt (stop.toNat - 1)
        let head := x.chunkWith first start.toNat
        let tail := x.chunkWith last stop.toNat
        let merged := head.1.take head.2 ++ tail.1.drop tail.2
        let rest := x.chunks.drop (last + 1)
        set (ofChunks (x.chunks.take first ++ if merged.isEmpty then rest else merged :: rest)) :
        Program Indexed Unit) x := rfl
  rw [happly, hx.size]
  by_cases hrange : 0 ≤ start ∧ start ≤ stop ∧ stop ≤ x.length
  · rw [if_neg (not_not.mpr hrange), if_pos hrange]
    by_cases heq : start = stop
    · rw [if_pos heq, if_pos heq]
      rfl
    · rw [if_neg heq, if_neg heq]
      have hlt : start.toNat < stop.toNat := by omega
      have hstop : stop.toNat ≤ x.chunks.flatten.length := Int.toNat_le.mpr hrange.2.2
      have hnil : x.chunks ≠ [] := by
        intro hnil
        rw [hnil, List.flatten_nil, List.length_nil] at hstop
        omega
      obtain ⟨us, c, vs, hchunks, hc⟩ := exists_holds hnil start.toNat
      obtain ⟨ws, d, zs, hchunks', hd⟩ := exists_holds hnil (stop.toNat - 1)
      rw [chunkAt_eq x hx.chunkStarts hchunks hc, chunkAt_eq x hx.chunkStarts hchunks' hd,
        chunkWith_eq x hx.chunkStarts hchunks, chunkWith_eq x hx.chunkStarts hchunks']
      have hfirst : x.chunks.take us.length = us := by rw [hchunks, List.take_left]
      have hlast : x.chunks.drop (ws.length + 1) = zs := by
        rw [hchunks', List.drop_length_add_append]
        rfl
      rw [hfirst, hlast]
      rw [hchunks] at hstop
      rw [hchunks, removeFrom_eq_of_holds hlt hstop hc hd (hchunks.symm.trans hchunks')]
      rfl
  · rw [if_pos hrange, if_neg hrange]
    rfl

/-- What changes the chunks, leaves everything as it is or refuses mirrors what does so to chunks
alone. -/
theorem seen_of_eq_ite {p : Program Indexed Unit} {f : Buffer → Except BufferError Buffer}
    {P Q : Prop} [Decidable P] [Decidable Q] {cs : Snapshot} {e : BufferError} (hx : x.Current)
    (hp : p x = if P then .ok () (if Q then x else ofChunks cs) else .error e x)
    (hf : f x.toBuffer = if P then .ok (if Q then x.toBuffer else ⟨cs⟩) else .error e) :
  seen toBuffer (p x) = assign f x.toBuffer ∧ (left (p x)).Current
  := by
  rw [hp, assign_apply, hf]
  by_cases hP : P
  · rw [if_pos hP, if_pos hP]
    by_cases hQ : Q
    · rw [if_pos hQ, if_pos hQ]
      exact ⟨rfl, hx⟩
    · rw [if_neg hQ, if_neg hQ]
      exact ⟨rfl, current_ofChunks cs⟩
  · rw [if_neg hP, if_neg hP]
    exact ⟨rfl, hx⟩

theorem mirrors_insert (i : Int) (s : Text) :
  Mirrors Current toBuffer (insert i s) (assign (·.insert i s))
  := fun _ hx => seen_of_eq_ite hx (insert_eq hx i s) rfl

theorem mirrors_remove (start stop : Int) :
  Mirrors Current toBuffer (remove start stop) (assign (·.remove start stop))
  := fun _ hx => seen_of_eq_ite hx (remove_eq hx start stop) rfl

/-- The operations of buffers with an index do to the chunks what those of buffers do. -/
theorem operations_refine_chunked :
  Refines operations chunked Current toBuffer id
  where
  insert := mirrors_insert
  remove := mirrors_remove
  setText t := fun _ _ => ⟨rfl, current_ofChunks (cut t)⟩
  snapshot _ _ := rfl
  restore s := fun _ _ => ⟨rfl, current_ofChunks s⟩

/-- The operations of buffers with an index do to the text what splices do. -/
theorem operations_refine_plain :
  Refines operations plain Current (·.text) List.flatten
  := operations_refine_chunked.trans chunked_refines_plain

section Refusals

variable {β γ : Type} {P : Prop} [Decidable P] {e : BufferError} {b b' : β}

/-- What succeeds under a condition fails exactly without it. -/
theorem exists_ite_eq_error_iff :
  (∃ e' b'', (if P then EStateM.Result.ok () b else .error e b') = .error e' b'') ↔ ¬P
  := by
  by_cases h : P
  · simp [h]
  · simp [h]

/-- What fails without a condition leaves what it says that it leaves. -/
theorem eq_of_seen_ite_eq_error {view : β → γ} {e' : BufferError} {c : γ}
    (h : seen view (if P then .ok () b else .error e b') = .error e' c) :
  c = view b'
  := by
  split at h
  · cases h
  · cases h
    rfl

end Refusals

/-- A call that is refused leaves everything as it was, what is kept for the queries included. -/
theorem eq_of_step_eq_error {h h' : Held Indexed Snapshot} (hcurrent : h.current.Current) {c : Call}
    {e : BufferError} (hstep : operations.step c h = .error e h') :
  h' = h
  := by
  cases c with
  | insert i s =>
    change seen _ (insert i s h.current) = _ at hstep
    rw [insert_eq hcurrent] at hstep
    apply eq_of_seen_ite_eq_error hstep
  | remove start stop =>
    change seen _ (remove start stop h.current) = _ at hstep
    rw [remove_eq hcurrent] at hstep
    apply eq_of_seen_ite_eq_error hstep
  | setText t => cases hstep
  | snapshot => cases hstep
  | restore k =>
    cases hk : h.kept[k]? with
    | some s =>
      rw [Operations.step_restore_of_some _ _ hk] at hstep
      cases hstep
    | none =>
      rw [Operations.step_restore_of_none _ _ hk] at hstep
      cases hstep

theorem exists_insert_eq_error_iff (hx : x.Current) (i : Int) (s : Text) :
  (∃ e x', insert i s x = .error e x') ↔ ¬(0 ≤ i ∧ i ≤ x.length)
  := by
  rw [insert_eq hx]
  apply exists_ite_eq_error_iff

theorem exists_remove_eq_error_iff (hx : x.Current) (start stop : Int) :
  (∃ e x', remove start stop x = .error e x') ↔ ¬(0 ≤ start ∧ start ≤ stop ∧ stop ≤ x.length)
  := by
  rw [remove_eq hx]
  apply exists_ite_eq_error_iff

end Edits

section Runs

theorem callsOf_append (steps steps' : List Step) :
  callsOf (steps ++ steps') = callsOf steps ++ callsOf steps'
  := by
  induction steps with
  | nil => rfl
  | cons step steps ih =>
    cases step with
    | call c => apply congrArg (c :: ·) ih
    | query q => apply ih

variable {h : Held Indexed Snapshot}

/-- A run of steps does to the chunks what its calls do without an index. -/
theorem forget_run (hcurrent : h.current.Current) (steps : List Step) :
  (steps.foldl next h).map toBuffer id = chunked.run (callsOf steps) (h.map toBuffer id) ∧
    (steps.foldl next h).current.Current
  := by
  induction steps generalizing h with
  | nil => exact ⟨rfl, hcurrent⟩
  | cons step steps ih =>
    cases step with
    | call c =>
      obtain ⟨hnext, hcurrent'⟩ := operations_refine_chunked.next h hcurrent c
      have hrun := ih hcurrent'
      rw [hnext] at hrun
      apply hrun
    | query q =>
      obtain ⟨-, hbuffer, hcurrent'⟩ := reads_answer h.current.toBuffer q h.current rfl hcurrent
      have hnext : (next h (.query q)).map toBuffer id = h.map toBuffer id :=
        congrArg (Held.mk · (h.kept.map id)) hbuffer
      have hrun := ih (h := next h (.query q)) hcurrent'
      rw [hnext] at hrun
      apply hrun

/-- What some steps make of the buffer of a text, of which nothing has been kept. -/
def reached (t : Text) (steps : List Step) : Held Indexed Snapshot :=
  steps.foldl next ⟨ofText t, []⟩

variable (t : Text) (steps : List Step)

theorem map_reached :
  (reached t steps).map toBuffer id = chunked.run (callsOf steps) ⟨.ofText t, []⟩
  := (forget_run (h := ⟨ofText t, []⟩) (current_ofChunks (cut t)) steps).1

theorem current_reached :
  (reached t steps).current.Current
  := (forget_run (h := ⟨ofText t, []⟩) (current_ofChunks (cut t)) steps).2

/-- What a snapshot has kept stays the one of its number, whatever steps have been taken since. -/
theorem getElem?_kept_reached (before between : List Step) :
  (reached t (before ++ .call .snapshot :: between)).kept[(callsOf before).count .snapshot]? =
    some (reached t before).current.chunks
  := by
  have hkept := congrArg Held.kept (map_reached t (before ++ .call .snapshot :: between))
  have hchunks := congrArg (·.current.chunks) (map_reached t before)
  rw [callsOf_append] at hkept
  simp only [Held.map, List.map_id] at hkept hchunks
  rw [hkept, hchunks]
  apply Operations.getElem?_kept_run (callsOf before) (callsOf between) rfl

/-- After any calls, with any queries among them, an index answers every query as a buffer does
that has gone through the calls without one. -/
theorem answer_run (q : Query) :
  outcome (answer q (reached t steps).current) =
    (chunked.run (callsOf steps) ⟨.ofText t, []⟩).current.answer q
  := by
  have hbuffer := congrArg Held.current (map_reached t steps)
  apply (reads_answer _ q _ hbuffer (current_reached t steps)).1

end Runs

/-- A buffer with an index and its snapshots stand for one plain text and copies of it. -/
structure Represents (h : Held Indexed Snapshot) (p : Held Text Text) : Prop where
  /-- The chunks join to the text. -/
  text : h.current.text = p.current
  /-- The characters of the text are counted. -/
  size : h.current.size = p.current.length
  /-- The snapshots join to the copies. -/
  kept : h.kept.map List.flatten = p.kept
  /-- Every query is answered as by a buffer that has been made of the text. -/
  answer : ∀ q, outcome (answer q h.current) = (Buffer.ofText p.current).answer q
  /-- Every call does to the text and the copies what the splices do, or fails as they do. -/
  step : ∀ c, seen (Held.map (·.text) List.flatten) (operations.step c h) = plain.step c p
  /-- Exactly the positions outside of the text are refused for an insertion. -/
  insert : ∀ i s, (∃ e x, insert i s h.current = .error e x) ↔ ¬(0 ≤ i ∧ i ≤ p.current.length)
  /-- Exactly the ranges outside of the text are refused for a removal. -/
  remove : ∀ start stop, (∃ e x, remove start stop h.current = .error e x) ↔
    ¬(0 ≤ start ∧ start ≤ stop ∧ stop ≤ p.current.length)
  /-- A call that is refused leaves everything as it was. -/
  refused : ∀ c e h', operations.step c h = .error e h' → h' = h

/-- A buffer whose index is that of its chunks stands for the text that it holds. -/
theorem represents_of_current {h : Held Indexed Snapshot} (hcurrent : h.current.Current) :
  Represents h (h.map (·.text) List.flatten)
  where
  text := rfl
  size := hcurrent.size
  kept := rfl
  answer q := by
    rw [(reads_answer h.current.toBuffer q h.current rfl hcurrent).1]
    apply answer_congr
    apply (text_ofText _).symm
  step c := (operations_refine_plain.step c h hcurrent).1
  insert i s := exists_insert_eq_error_iff hcurrent i s
  remove start stop := exists_remove_eq_error_iff hcurrent start stop
  refused _ _ _ := eq_of_step_eq_error hcurrent

end Indexed

/-- Over any run of calls, with any queries among them, a buffer with an index stands for the text
that the same splices make of one plain text: it counts and answers as one made of that, refuses
exactly the positions outside of it, and is left as it was by what it refuses.  Its chunks and
snapshots are those of a buffer without an index, and a snapshot brings back the chunks of which it
was taken. -/
theorem run_refines_text (t : Text) (steps : List Indexed.Step) :
  let h := Indexed.reached t steps
  Indexed.Represents h (plain.run (Indexed.callsOf steps) ⟨t, []⟩) ∧
    h.map Indexed.toBuffer id = chunked.run (Indexed.callsOf steps) ⟨ofText t, []⟩ ∧
    ∀ before between, steps = before ++ .call .snapshot :: between →
      (Indexed.operations.next h (.restore ((Indexed.callsOf before).count .snapshot))).current =
        .ofChunks (Indexed.reached t before).current.chunks
  := by
  intro h
  have hchunks : h.map Indexed.toBuffer id = _ := Indexed.map_reached t steps
  have htext : h.map (·.text) List.flatten = plain.run (Indexed.callsOf steps) ⟨t, []⟩ := by
    rw [← map_text_run, ← hchunks]
    simp [Held.map]
  refine ⟨?_, hchunks, ?_⟩
  · rw [← htext]
    apply Indexed.represents_of_current (Indexed.current_reached t steps)
  · rintro before between rfl
    have hkept := Indexed.getElem?_kept_reached t before between
    rw [Operations.next, Operations.step_restore_of_some _ _ hkept, left_seen]
    rfl

end Tunescript.Buffer
